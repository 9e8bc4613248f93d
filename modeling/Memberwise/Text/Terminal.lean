/-!
# Terminal text

Text for a terminal can hold control sequences, which change the look of the text after them and are not shown.
All start with an escape character. A short sequence ends with its first character that is not an intermediate
one, a control sequence with its first letter or sign from `@` to `~`, and a string with a terminator.

`plain` is the text for an output that is no terminal: the sequences and all other control characters are left
out, the layout characters stay. A sequence that is left open takes the text after it out, too, until it ends or
another one starts (`plain_eq_self` for text without control characters).
-/

namespace Memberwise.Text.Terminal

/-- Where in a sequence a reader of terminal text is. A device string has parameters and intermediate characters
in front; a command ends with a bell. -/
inductive Place
  | ground
  | escape
  | intermediate
  | control
  | device
  | deviceParameter
  | deviceIntermediate
  | string
  | command
  deriving DecidableEq, Repr

/-- Tabs, line ends and form feeds. -/
def isLayout (c : Char) : Bool := c = '\t' || c = '\n' || c = '\x0c' || c = '\r'

/-- What is shown outside sequences: all but the control characters of ASCII that are not for the layout. -/
def isText (c : Char) : Bool := isLayout c || ('\x20' ≤ c && c != '\x7f')

namespace Place

/-- What the character after an escape character starts or ends. -/
def afterEscape (c : Char) : Place :=
  if c = '[' then control
  else if c = ']' then command
  else if c = 'P' then device
  else if c = 'X' ∨ c = '^' ∨ c = '_' then string
  else if '0' ≤ c ∧ c ≤ '~' then ground
  else if ' ' ≤ c ∧ c < '0' then intermediate
  else escape

/-- Where a character that is not shown leads to. A string also ends where the byte `9c` stands, be it part of a
longer character. -/
def next (p : Place) (c : Char) : Place :=
  if c = '\x1b' then escape
  else if c = '\x18' ∨ c = '\x1a' then ground
  else
    match p with
    | ground => ground
    | escape => afterEscape c
    | intermediate => if '0' ≤ c ∧ c ≤ '~' then ground else intermediate
    | control => if '@' ≤ c ∧ c ≤ '~' then ground else control
    | device =>
      if ' ' ≤ c ∧ c < '0' then deviceIntermediate
      else if '0' ≤ c ∧ c < '@' then deviceParameter
      else if '@' ≤ c ∧ c ≤ '~' then string
      else device
    | deviceParameter =>
      if ' ' ≤ c ∧ c < '0' then deviceIntermediate
      else if '<' ≤ c ∧ c ≤ '~' then string
      else deviceParameter
    | deviceIntermediate => if '0' ≤ c ∧ c ≤ '~' then string else deviceIntermediate
    | string => if (String.utf8EncodeChar c).contains 0x9c then ground else string
    | command => if c = '\x07' then ground else command

/-- Whether the layout characters within a sequence are shown. They are not part of a string. -/
def showsLayout : Place → Bool
  | ground | escape | intermediate | control => true
  | device | deviceParameter | deviceIntermediate | string | command => false

end Place

/-- A reader of terminal text. A layout character within a sequence interrupts it: text is shown from there up to
the next control character, where the sequence goes on, unless a character beyond ASCII has ended it. -/
structure Reader where
  place : Place := .ground
  showing : Bool := true
  deriving DecidableEq, Repr

namespace Reader

def shows (r : Reader) (c : Char) : Bool := if r.showing then isText c else r.place.showsLayout && isLayout c

def next (r : Reader) (c : Char) : Reader :=
  if r.shows c then ⟨if c ≤ '\x7f' then r.place else .ground, true⟩
  else
    let place := r.place.next c
    ⟨place, place = .ground⟩

/-- The characters that are shown. -/
def shown (r : Reader) : List Char → List Char
  | [] => []
  | c :: rest => if r.shows c then c :: (r.next c).shown rest else (r.next c).shown rest

theorem shown_eq_self {s : List Char} (hs : ∀ c ∈ s, isText c = true) {r : Reader} (hr : r.showing = true) :
    r.shown s = s := by
  induction s generalizing r with
  | nil => rfl
  | cons c rest ih =>
    have hc : r.shows c = true := by simp [shows, hr, hs c]
    have hn : (r.next c).showing = true := by simp [next, hc]
    simp only [shown, hc, if_true]
    rw [ih (fun d hd => hs d (List.mem_cons_of_mem c hd)) hn]

end Reader

/-- The text for an output that is no terminal. -/
def plain (s : String) : String := String.ofList (Reader.shown {} s.toList)

/-- Text without control characters, those for the layout apart, is plain as it is. -/
theorem plain_eq_self {s : String} (hs : ∀ c ∈ s.toList, isText c = true) : plain s = s := by
  unfold plain
  rw [Reader.shown_eq_self hs rfl, String.ofList_toList]

/-- The sequence after which text looks as usual. -/
def reset : String := "\x1b[0m"

def bold (s : String) : String := "\x1b[1m" ++ s ++ reset

def boldUnderlined (s : String) : String := "\x1b[1m\x1b[4m" ++ s ++ reset

/-- The width of text that is in one line. -/
def width (s : String) : Nat := (plain s).length

/-- Text filled up with blanks on the right. -/
def padRight (n : Nat) (s : String) : String := s ++ String.ofList (List.replicate (n - width s) ' ')

end Memberwise.Text.Terminal
