import Vdc.Address.IPv4

/-!
# IPv6 addresses

An IPv6 address is eight groups of sixteen bits, written in hexadecimal with colons between them.
Two colons stand for the groups that are left out, all of them zero, and the last two groups may be
written as an IPv4 address. An address is written without its longest run of zero groups, and an
IPv4 address in the guise of an IPv6 address as such.
-/

namespace Vdc

/-- An IPv6 address. -/
structure IPv6 where
  groups : List UInt16
  length_groups : groups.length = 8
deriving DecidableEq, Repr

namespace IPv6

/-- Whether a group begins an address for many hosts that reaches as far as a number says: one
stands for a single interface, two for a link. -/
def hasReach (reach group : UInt16) : Bool :=
  group &&& 0xff0f == 0xff00 ||| reach

/-- Whether an address holds no farther than a link: it is for one host on the link, or for many on
the link or on a single interface. -/
def isLinkLocal (ip : IPv6) : Bool :=
  ip.groups.head?.any fun group =>
    group &&& 0xffc0 == 0xfe80 || hasReach 1 group || hasReach 2 group

/-! ## Reading -/

/-- Reads a group of up to four digits. -/
def group? (digits : List UInt8) : Option UInt16 :=
  if digits.length ≤ 4 then (IPv4.numberInBase? 16 digits).map UInt16.ofNat else none

/-- The two groups that an IPv4 address fills. -/
def groupsOf (ip : IPv4) : List UInt16 :=
  [UInt16.ofNat (ip.a.toNat * 256 + ip.b.toNat), UInt16.ofNat (ip.c.toNat * 256 + ip.d.toNat)]

/-- Reads groups, the last of them perhaps an IPv4 address. -/
def groups? : List (List UInt8) → Option (List UInt16)
  | [] => some []
  | [last] =>
    match IPv4.ofText? last with
    | some ip => some (groupsOf ip)
    | none => (group? last).map ([·])
  | digits :: rest => do return (← group? digits) :: (← groups? rest)

/-- The parts between the colons of a text; an empty text has none. -/
def parts (text : List UInt8) : List (List UInt8) :=
  if text.isEmpty then [] else Parts.split 0x3a text

/-- What stands before the first two colons in a row, and what stands after them. -/
def splitGap? : List UInt8 → Option (List UInt8 × List UInt8)
  | [] => none
  | b :: rest =>
    match b, rest with
    | 0x3a, 0x3a :: after => some ([], after)
    | _, _ => (splitGap? rest).map fun (before, after) => (b :: before, after)

/-- The address with these groups, if they are eight. -/
def ofGroups? (groups : List UInt16) : Option IPv6 :=
  if h : groups.length = 8 then some ⟨groups, h⟩ else none

/-- Reads an address. -/
def ofText? (text : List UInt8) : Option IPv6 :=
  match splitGap? text with
  | none => (groups? (parts text)).bind ofGroups?
  | some (before, after) => do
    let front ← (parts before).mapM group?
    let back ← groups? (parts after)
    if front.length + back.length < 8 then
      ofGroups? (front ++ List.replicate (8 - (front.length + back.length)) 0 ++ back)
    else none

/-! ## Writing -/

/-- Groups in hexadecimal, without leading zeros, with colons between them. -/
def writeGroups (groups : List UInt16) : List UInt8 :=
  let digits (group : UInt16) : List UInt8 :=
    let all := [group.toNat / 0x1000, group.toNat / 0x100 % 16, group.toNat / 0x10 % 16]
    (all.dropWhile (· == 0) ++ [group.toNat % 16]).map (Hex.digit 0x61)
  [0x3a].intercalate (groups.map digits)

/-- How many zero groups there are from each group on. -/
def zeroRuns (groups : List UInt16) : List Nat :=
  (List.range groups.length).map fun i => ((groups.drop i).takeWhile (· == 0)).length

/-- The IPv4 address that an address stands in for. -/
def mapped? (ip : IPv6) : Option IPv4 :=
  match ip.groups with
  | [0, 0, 0, 0, 0, 0xffff, high, low] =>
    some (IPv4.ofNat (high.toNat * 0x10000 + low.toNat))
  | _ => none

/-- An address as text. -/
def toText (ip : IPv6) : List UInt8 :=
  match ip.mapped? with
  | some v4 => Utf8.encode "::ffff:" ++ v4.toText
  | none =>
    let runs := zeroRuns ip.groups
    let longest := runs.foldl max 0
    if longest ≤ 1 then writeGroups ip.groups
    else
      let start := runs.idxOf longest
      writeGroups (ip.groups.take start) ++ Utf8.encode "::"
        ++ writeGroups (ip.groups.drop (start + longest))

end IPv6

end Vdc
