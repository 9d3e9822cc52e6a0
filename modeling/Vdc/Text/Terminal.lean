import Vdc.Text.Utf8

/-!
# Text for terminals

Text for a terminal may hold control sequences, which begin with an escape character and change how
the text after them looks. Where there is no terminal only the plain text is written: the control
sequences are taken out, and so are all control characters but blanks and line ends.

How long a sequence is depends on what introduces it. A control sequence ends at its first letter;
a string goes on until the byte that ends strings, and a command until a bell; a new escape
character ends them all. A blank in the midst of a control sequence is shown, and plain text after
the blank is shown with it. Where that text stops the sequence goes on, unless a character outside
ASCII has ended it.

`plain_eq_self` says that plain text is left alone.
-/

namespace Vdc.Terminal

/-- What a reader of terminal text is within. -/
inductive Within where
  | text
  /-- Just after an escape character. -/
  | escape
  /-- Within the characters between an escape character and the one that it ends with. -/
  | escapeArguments
  | controlSequence
  /-- At the start of a string for a device. -/
  | deviceString
  | deviceParameters
  | deviceArguments
  /-- Within a string that nobody reads. -/
  | ignored
  /-- Within a command to the terminal, such as one that sets a title. -/
  | command
deriving DecidableEq, Repr

/-- Whether a character is a blank or the end of a line. -/
def isBlank (c : Char) : Bool :=
  c = ' ' || c = '\t' || c = '\n' || c = '\x0c' || c = '\r'

/-- Whether a character controls the terminal instead of being shown. -/
def isControl (c : Char) : Bool :=
  c < ' ' || c = '\x7f'

/-- Whether a character stands in plain text. -/
def isPlain (c : Char) : Bool :=
  !isControl c || isBlank c

/-- Whether the byte that ends strings is one of the bytes of a character. -/
def endsString (c : Char) : Bool :=
  (Utf8.encode c.toString).contains 0x9c

/-- What an escape character and the character after it begin. -/
def introduced (c : Char) : Within :=
  if c = '[' then .controlSequence
  else if c = ']' then .command
  else if c = 'P' then .deviceString
  else if c = 'X' || c = '^' || c = '_' then .ignored
  else if c < '0' then .escapeArguments
  else .text

/-- What a reader is within after a character that is not shown and is neither an escape character
nor one that cancels everything. -/
def advance (within : Within) (c : Char) : Within :=
  match within with
  | .text => .text
  | .escape => if isControl c || '\x7f' < c then .escape else introduced c
  | .escapeArguments => if c < '0' || '~' < c then .escapeArguments else .text
  | .controlSequence => if c < '@' || '~' < c then .controlSequence else .text
  | .deviceString =>
    if isControl c || '~' < c then .deviceString
    else if c < '0' then .deviceArguments
    else if c < '@' then .deviceParameters
    else .ignored
  | .deviceParameters =>
    if isControl c || '~' < c then .deviceParameters
    else if c < '0' then .deviceArguments
    else if c < '<' then .deviceParameters
    else .ignored
  | .deviceArguments => if c < '0' || '~' < c then .deviceArguments else .ignored
  | .ignored => if endsString c then .text else .ignored
  | .command => if c = '\x07' then .text else .command

/-- Whether a character is shown where the one before it was not. Within sequences that is so only
for control characters that move to the next column or line. -/
def shows (within : Within) (c : Char) : Bool :=
  match within with
  | .text => isPlain c
  | .escape | .escapeArguments | .controlSequence => isControl c && isBlank c
  | _ => false

/-- A reader of terminal text: what it is within, and whether the last character was shown. -/
structure Reader where
  within : Within
  flowing : Bool
deriving DecidableEq, Repr

namespace Reader

/-- A reader at the start of a text. -/
def fresh : Reader := ⟨.text, false⟩

/-- Whether a character is shown, and the reader after it. -/
def step (r : Reader) (c : Char) : Bool × Reader :=
  if c = '\x1b' then (false, ⟨.escape, false⟩)
  else if c = '\x18' || c = '\x1a' then (false, ⟨.text, false⟩)
  else if (r.flowing && isPlain c) || shows r.within c then
    (true, ⟨if '\x7f' < c then .text else r.within, true⟩)
  else (false, ⟨advance r.within c, false⟩)

/-- The characters of a text that are shown. -/
def shown (r : Reader) : List Char → List Char
  | [] => []
  | c :: rest =>
    let (visible, next) := r.step c
    if visible then c :: next.shown rest else next.shown rest

end Reader

/-- The plain part of a text. -/
def plain (text : String) : String :=
  String.ofList (Reader.fresh.shown text.toList)

/-- A text that stands out from the text around it. -/
def highlight (text : String) : String :=
  s!"\x1b[1m{text}\x1b[0m"

theorem step_of_isPlain {c : Char} (h : isPlain c = true) (flowing : Bool) :
    Reader.step ⟨.text, flowing⟩ c = (true, ⟨.text, true⟩) := by
  have hne (d : Char) (hd : isPlain d = false) : c ≠ d := fun e => by
    rw [e, hd] at h
    cases h
  simp [Reader.step, shows, h, hne '\x1b' (by decide), hne '\x18' (by decide),
    hne '\x1a' (by decide)]

theorem shown_eq_self {text : List Char} (h : ∀ c ∈ text, isPlain c = true) (flowing : Bool) :
    Reader.shown ⟨.text, flowing⟩ text = text := by
  induction text generalizing flowing with
  | nil => rfl
  | cons c rest ih =>
    simp only [List.mem_cons, forall_eq_or_imp] at h
    simp [Reader.shown, step_of_isPlain h.1, ih h.2]

theorem plain_eq_self {text : String} (h : ∀ c ∈ text.toList, isPlain c = true) :
    plain text = text := by
  simp [plain, Reader.fresh, shown_eq_self h]

end Vdc.Terminal
