/-!
Reading JSON text from left to right. A reader takes what it wants from the
front of the text and leaves the rest; the first fault ends the reading. Text
that stops too early is told apart from text that no continuation can mend.
-/

namespace ConfiguredPredicates.Json.Text

inductive Fault where
  | unfinished
  | malformed
deriving DecidableEq, Repr

abbrev Reader (α : Type) := List Char → Except Fault (α × List Char)

theorem bind_eq_ok {ε : Type} {α β : Type} {x : Except ε α} {f : α → Except ε β} {b : β} :
    (x >>= f) = .ok b ↔ ∃ a, x = .ok a ∧ f a = .ok b := by
  cases x <;> simp [bind, Except.bind]

def isBlank (c : Char) : Bool :=
  c = ' ' || c = '\n' || c = '\t' || c = '\r'

def skipBlanks (cs : List Char) : List Char := cs.dropWhile isBlank

def literal (value : α) : List Char → Reader α
  | [], cs => .ok (value, cs)
  | _ :: _, [] => .error .unfinished
  | letter :: letters, c :: cs =>
    if c = letter then literal value letters cs else .error .malformed

def separator (sign : Char) (cs : List Char) : Except Fault (List Char) :=
  match skipBlanks cs with
  | [] => .error .unfinished
  | c :: rest => if c = sign then .ok rest else .error .malformed

def followingItems (closing : Char) (item : Reader α) : (fuel : Nat) → Reader (List α)
  | 0, _ => .error .unfinished
  | fuel + 1, cs =>
    match skipBlanks cs with
    | [] => .error .unfinished
    | c :: rest =>
      if c = closing then .ok ([], rest)
      else if c = ',' then do
        let (first, rest) ← item rest
        let (others, rest) ← followingItems closing item fuel rest
        .ok (first :: others, rest)
      else .error .malformed

/-- The items after an opening bracket, up to the closing one. Every item takes
at least its comma, so there are no more of them than characters. -/
def items (closing : Char) (item : Reader α) : Reader (List α) := fun cs =>
  match skipBlanks cs with
  | [] => .error .unfinished
  | c :: rest =>
    if c = closing then .ok ([], rest)
    else do
      let (first, rest) ← item (c :: rest)
      let (others, rest) ← followingItems closing item (rest.length + 1) rest
      .ok (first :: others, rest)

def endOfText (cs : List Char) : Except Fault Unit :=
  if (skipBlanks cs).isEmpty then .ok () else .error .malformed

end ConfiguredPredicates.Json.Text
