import Dm20.Lib.Except
import Dm20.Query.ParseTree

namespace IS.Tokenizer

def isWhitespace (ch : Char) : Bool :=
  isSpace ch

def isStructureSymbol (ch : Char) : Bool :=
  ['(', ')', '[', ']', ','].contains ch

def isComparatorSymbol (ch : Char) : Bool :=
  ['<', '>', '!', '='].contains ch

def isStringSymbol (ch : Char) : Bool :=
  decide (ch = '\'') || decide (ch = '"')

def isArithmeticSymbol (ch : Char) : Bool :=
  ['+', '-', '*', '/', '%'].contains ch

def isSemicolon (ch : Char) : Bool :=
  decide (ch = ';')

/-- Whether a character ends the word before it. -/
def isDelimiter (ch : Char) : Bool :=
  isWhitespace ch || isStructureSymbol ch || isComparatorSymbol ch || isStringSymbol ch ||
    isArithmeticSymbol ch || isSemicolon ch

/-- The token collected in the buffer, if there is one. -/
def flush (buffer : Str) : List Str :=
  if buffer = [] then [] else [buffer]

/-- The tokens of a text. The buffer holds the word or the quoted string read so
far; any quote ends a string. The character behind a comparator is read without
a check, which throws at the end of the text. -/
def tokenizeFrom (inString : Bool) (buffer : Str) : Str → Except ParseError (List Str)
  | [] => .ok (flush buffer)
  | ch :: str =>
    if inString then
      if isStringSymbol ch then (tokenizeFrom false [] str).map ((buffer ++ [ch]) :: ·)
      else tokenizeFrom true (buffer ++ [ch]) str
    else if !isDelimiter ch then tokenizeFrom false (buffer ++ [ch]) str
    else
      (if isStructureSymbol ch then (tokenizeFrom false [] str).map ([ch] :: ·)
      else if isComparatorSymbol ch then
        match str with
        | [] => .error .outOfRange
        | nextch :: str' =>
          if isComparatorSymbol nextch then (tokenizeFrom false [] str').map ([ch, nextch] :: ·)
          else (tokenizeFrom false [] (nextch :: str')).map ([ch] :: ·)
      else if isStringSymbol ch then tokenizeFrom true [ch] str
      else if isArithmeticSymbol ch || isSemicolon ch then (tokenizeFrom false [] str).map ([ch] :: ·)
      else tokenizeFrom false [] str).map (flush buffer ++ ·)

def tokenize (str : Str) : Except ParseError (List Str) :=
  tokenizeFrom false [] str

/-- The only exception is that of a comparator at the end of the text. -/
theorem tokenizeFrom_eq_error {inString : Bool} {buffer str : Str} {e : ParseError}
    (h : tokenizeFrom inString buffer str = .error e) : e = .outOfRange := by
  fun_induction tokenizeFrom inString buffer str with
  | case1 => cases h
  | case2 buffer ch str hquote ih => exact ih (Except.map_eq_error_iff.mp h)
  | case3 buffer ch str hquote ih => exact ih h
  | case4 inString buffer ch str hstring hword ih => exact ih h
  | case5 inString buffer ch str hstring hdelimiter hplain hcomparator hquoted =>
    rw [Except.map_eq_error_iff] at h
    split at h
    · exact hplain (Except.map_eq_error_iff.mp h)
    split at h
    · cases str with
      | nil =>
        cases h
        rfl
      | cons nextch str =>
        obtain ⟨hpair, hsingle⟩ := hcomparator
        dsimp only at h
        split at h
        · exact hpair (Except.map_eq_error_iff.mp h)
        · exact hsingle (Except.map_eq_error_iff.mp h)
    split at h
    · exact hquoted h
    split at h
    · exact hplain (Except.map_eq_error_iff.mp h)
    · exact hplain h
end IS.Tokenizer
