import SealedCall.CommandLine.Grammar

/-! # Reading the words of a command line

The words are read from the left. An operand takes as many plain words as its extent allows, the
divider next to them is no part of any operand, and what neither an option nor an operand takes is
left over. Whoever reads the whole line decides what becomes of the words left over.
-/

namespace SealedCall.CommandLine

/-- What was read from the words of a command line: the options with their values and the operands
with their words, both in the order of the line, and the words left over. -/
structure Arguments where
  settings : List (String × List Text)
  operands : List (Operand × List Text)
  leftOver : List Text

def Arguments.words (arguments : Arguments) (name : String) : List Text :=
  match arguments.operands.find? fun entry => entry.1.name == name with
  | some (_, words) => words
  | none => []

namespace Word

def isDivider (word : Word) : Bool := word.role == .divider

def isOperand (word : Word) : Bool := word.role == .plain || word.isDivider

end Word

namespace Extent

/-- The words that an operand takes from the front, and the words after them. It takes none when
the first word that is no divider is not plain. -/
def take (extent : Extent) (words : List Word) : Option (List Word × List Word) :=
  let dividers := words.takeWhile Word.isDivider
  match words.dropWhile Word.isDivider with
  | [] => none
  | first :: rest =>
    if first.role = .plain then
      match extent with
      | .one => some (dividers ++ first :: rest.takeWhile Word.isDivider,
          rest.dropWhile Word.isDivider)
      | .several => some (dividers ++ first :: rest.takeWhile Word.isOperand,
          rest.dropWhile Word.isOperand)
      | .everything => some (dividers ++ first :: rest, [])
    else none

/-- An operand that takes words takes at least one. -/
theorem length_lt_of_take {extent : Extent} {words taken rest : List Word}
    (h : extent.take words = some (taken, rest)) : rest.length < words.length := by
  unfold take at h
  have hdrop := (List.dropWhile_suffix Word.isDivider (l := words)).length_le
  split at h
  · cases h
  next first after hwords =>
    rw [hwords] at hdrop
    have hone := (List.dropWhile_suffix Word.isDivider (l := after)).length_le
    have hseveral := (List.dropWhile_suffix Word.isOperand (l := after)).length_le
    simp only [List.length_cons] at hdrop
    split at h
    · cases extent <;> (injection h with h; injection h with _ h; subst h)
      · omega
      · omega
      · exact Nat.lt_of_lt_of_le (Nat.succ_pos _) hdrop
    · cases h

/-- The texts of words without the first that is spelled like a divider, whether it is one or
not. -/
def undivided (texts : List Text) : List Text := texts.erase (Text.of "--")

/-- The texts of the words that an operand took, as it hands them on. -/
def texts (extent : Extent) (taken : List Word) : List Text :=
  match extent with
  | .everything => taken.map (·.text)
  | _ => undivided (taken.map (·.text))

end Extent

/-- The outcome of reading further, with a word before it that nothing took. -/
def leaveOver (text : Text) : Except Interruption Arguments → Except Interruption Arguments
  | .ok arguments => .ok { arguments with leftOver := text :: arguments.leftOver }
  | .error interruption => .error interruption

/-- The outcome of reading further, with a setting before it. -/
def withSetting (name : String) (value : Text) :
    Except Interruption Arguments → Except Interruption Arguments
  | .ok arguments =>
    let setting := (name, Extent.undivided [value])
    .ok { arguments with settings := setting :: arguments.settings }
  | .error interruption => .error interruption

/-- The outcome of reading further, with an operand before it. -/
def withOperand (operand : Operand) (texts : List Text) :
    Except Interruption Arguments → Except Interruption Arguments
  | .ok arguments => .ok { arguments with operands := (operand, texts) :: arguments.operands }
  | .error interruption => .error interruption

/-- Reads words, with the operands that have not taken theirs yet. -/
def scan (grammar : Grammar) (pending : List Operand) : List Word → Except Interruption Arguments
  | [] =>
    if pending.isEmpty then .ok ⟨[], [], []⟩
    else .error (.refused grammar (.missingOperands (pending.map (·.name))))
  | word :: rest =>
    match word.role with
    | .unknownOption => leaveOver word.text (scan grammar pending rest)
    | .option .help none => .error (.help grammar)
    | .option .help (some value) => .error (.refused grammar (.uselessValue value))
    | .option (.setting name) (some value) => withSetting name value (scan grammar pending rest)
    | .option (.setting name) none =>
      match rest with
      | ⟨value, .plain⟩ :: after => withSetting name value (scan grammar pending after)
      | _ => .error (.refused grammar (.missingValue name))
    | .plain | .divider =>
      match pending with
      | [] => leaveOver word.text (scan grammar [] rest)
      | operand :: later =>
        match h : operand.extent.take (word :: rest) with
        | some (taken, after) =>
          have := Extent.length_lt_of_take h
          withOperand operand (operand.extent.texts taken) (scan grammar later after)
        | none => leaveOver word.text (scan grammar pending rest)
termination_by words => words.length
decreasing_by all_goals simp only [List.length_cons] at *; omega

def Grammar.read (grammar : Grammar) (line : List Text) : Except Interruption Arguments :=
  match grammar.sort line with
  | .ok words => scan grammar grammar.operands words
  | .error interruption => .error interruption

end SealedCall.CommandLine
