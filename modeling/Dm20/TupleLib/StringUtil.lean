import Dm20.Lib.Text
import Dm20.TupleLib.Any

namespace IS.StringUtil

open Text

def contain (s v : Str) : Bool :=
  occurs v s

def starts_with (s pre : Str) : Bool :=
  pre.isPrefixOf s

/-- The pieces of a text between the occurrences of a separator; none for the empty text. -/
def split (target regex : Str) : List Str :=
  if target.length = 0 then [] else pieces regex target.length target

def replaceOnce (target before after : Str) : Str :=
  match cut before target with
  | none => target
  | some (a, b) => a ++ after ++ b

/-- The state of the scan for bracketed texts: the nesting depth, the text
inside the open bracket and the texts found. -/
structure BracketScan where
  num : Int
  inner : Str
  ret : List Str

/-- One character of the scan. A closing bracket that equals the opening one
closes it; the first opening bracket is not part of the inner text. -/
def BracketScan.next (left right : Char) (st : BracketScan) (ch : Char) : BracketScan :=
  let keep (st : BracketScan) : BracketScan :=
    if 0 < st.num then { st with inner := st.inner ++ [ch] } else st
  let close (st : BracketScan) : BracketScan :=
    if st.num - 1 = 0 then { num := st.num - 1, inner := [], ret := st.ret ++ [st.inner] }
    else { st with num := st.num - 1 }
  if ch = left then
    if 0 < st.num ∧ left = right then keep (close st)
    else if st.num + 1 = 1 then { st with num := st.num + 1 }
    else keep { st with num := st.num + 1 }
  else if ch = right then keep (close st)
  else keep st

/-- The texts between outermost brackets. -/
def getStringInBracketFirst (input : Str) (left right : Char) : List Str :=
  (input.foldl (BracketScan.next left right) { num := 0, inner := [], ret := [] }).ret

/-- Replaces each of the texts, in its quotes, by its number after the tag. -/
def hide (left right : Char) (tag : Str) (inner : List Str) (buf : Str) : Str :=
  inner.zipIdx.foldl (fun buf (text, i) =>
    replaceOnce buf ([left] ++ text ++ [right]) ([left] ++ tag ++ to_string_nat i ++ [right])) buf

/-- Replaces each tag with its number by the text it stands for. -/
def unhide (tag : Str) (inner : List Str) (buf : Str) : Str :=
  inner.zipIdx.foldl (fun buf (text, i) => replaceOnce buf (tag ++ to_string_nat i) text) buf

/-- `split` that does not cut inside brackets or quotes. -/
def splitExcludeBrackets (target regex : Str) : List Str :=
  let innerListK := getStringInBracketFirst target '(' ')'
  let parameter := hide '(' ')' "replaceK".toList innerListK target
  let innerListS := getStringInBracketFirst parameter '\'' '\''
  let parameter := hide '\'' '\'' "replaceS".toList innerListS parameter
  let innerListD := getStringInBracketFirst parameter '"' '"'
  let parameter := hide '"' '"' "replaceD".toList innerListD parameter
  (split parameter regex).map fun part =>
    unhide "replaceK".toList innerListK
      (unhide "replaceS".toList innerListS (unhide "replaceD".toList innerListD part))

/-- The bytes `deleteSpace` deletes: the space, the tab and the bytes of the wide
space, each on its own. -/
def spaceBytes : Str :=
  [' ', '\xe3', '\x80', '\t']

/-- Deletes the spaces of a text, but not those between quotes. -/
def deleteSpace (buf : Str) : Str :=
  let innerListS := getStringInBracketFirst buf '\'' '\''
  let buf := hide '\'' '\'' "replaceS".toList innerListS buf
  let innerListD := getStringInBracketFirst buf '"' '"'
  let buf := hide '"' '"' "replaceD".toList innerListD buf
  unhide "replaceS".toList innerListS
    (unhide "replaceD".toList innerListD (buf.filter fun c => !spaceBytes.contains c))

end IS.StringUtil
