import Vdc.Error
import Vdc.Number.Integer

/-!
# Service announcements

An endpoint announces a service record with a name of its own. A name that is taken on the network
gives way to its alternative, `lamp` to `lamp #2`, `lamp #2` to `lamp #3`, until one is free.

The numbers end at `2 ^ 32 - 1`: the alternative of a name with that number is the name itself, and
where such a name is taken the search never ends. `freeName?` is then `none`. It looks at one name
more than are taken, which is enough, because a chain of alternatives repeats itself only there.
-/

namespace Vdc

namespace ServiceName

/-- The greatest number of an alternative name. -/
def maxNumber : Nat := 2 ^ 32 - 1

/-- Splits a text at the last blank that a number sign follows. -/
def splitLast? : List Char → Option (List Char × List Char)
  | [] => none
  | c :: rest =>
    match splitLast? rest with
    | some (before, after) => some (c :: before, after)
    | none =>
      match rest with
      | d :: after => if c = ' ' ∧ d = '#' then some ([], after) else none
      | [] => none

/-- The base and the number of a numbered name. -/
def numbered? (name : String) : Option (String × Nat) := do
  let (base, number) ← splitLast? name.toList
  let n ← (natOfText? maxNumber (Utf8.encode (String.ofList number))).toOption
  if 1 ≤ n then return (String.ofList base, n) else none

/-- The name to try after a name. -/
def alternative (name : String) : String :=
  match numbered? name with
  | some (base, n) =>
    let next := min (n + 1) maxNumber
    s!"{base} #{next}"
  | none => s!"{name} #2"

/-- The first free name among a name and its alternatives, within some steps. -/
def freeWithin? (taken : List String) : Nat → String → Option String
  | 0, _ => none
  | steps + 1, name =>
    if taken.contains name then freeWithin? taken steps (alternative name) else some name

/-- The first free name among a name and its alternatives. -/
def freeName? (taken : List String) (name : String) : Option String :=
  freeWithin? taken (taken.length + 1) name

end ServiceName

/-- A service record as it is published. -/
structure ServiceRecord where
  name : String
  serviceType : String
  port : UInt16
  txt : List String
deriving DecidableEq, Repr

namespace ServiceRecord

/-- The service type of a virtual device connector. -/
def vdcType : String := "_ds-vdc._tcp"

end ServiceRecord

/-- What an endpoint announces. -/
structure Service where
  name : String
  dsuid : String
  port : UInt16
deriving DecidableEq, Repr

/-- An announcer: the names that others have taken, and the record it has published. -/
structure Announcer where
  taken : List String
  record : Option ServiceRecord
deriving DecidableEq, Repr, Inhabited

namespace Announcer

/-- What comes of starting an announcement. -/
inductive Started where
  | published (announcer : Announcer)
  | refused (error : Error)
  /-- Every name in the chain of alternatives is taken. -/
  | endless
deriving Repr

/-- Publishes the record of a service under the first free name. -/
def start (a : Announcer) (service : Service) : Started :=
  if service.name.isEmpty then .refused (.parameter .emptyServiceName)
  else
    match ServiceName.freeName? a.taken service.name with
    | none => .endless
    | some name =>
      let owner := service.dsuid
      .published
        { a with record := some ⟨name, ServiceRecord.vdcType, service.port, [s!"dSUID={owner}"]⟩ }

/-- Withdraws the record. -/
def stop (a : Announcer) : Announcer :=
  { a with record := none }

end Announcer

end Vdc
