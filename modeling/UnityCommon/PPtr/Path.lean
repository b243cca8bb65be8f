import UnityCommon.Common.Text
import UnityCommon.Lib.LexicalPath
import Mathlib.Data.List.Basic

/-!
# Pathname normalization of the PPtr resolver

`unity_pptr_resolver.c` compares pathnames as texts: it normalizes them first
and then works with prefixes, the last separator and concatenation. This file
is the POSIX build of those helpers. Allocation is taken to succeed; the
length sums stay far below `SIZE_MAX` because every normalized text has at
most `UNITY_PPTR_MAX_LOCATOR_BYTES + 1` bytes.
-/

namespace UnityCommon.PPtr

/-- `UNITY_PPTR_MAX_LOCATOR_BYTES`. -/
def maxLocatorBytes : ℕ := 65535

def slash : UInt8 := 0x2f
def colon : UInt8 := 0x3a
def dotText : Text := ascii "."
def dotDotText : Text := ascii ".."

structure NormalizedPath where
  text : Text
  absolute : Bool
deriving DecidableEq, Repr

/-- The maximal runs of non-separator bytes, in reading order. -/
def components (input : Text) : List Text :=
  (input.splitOn slash).filter (· ≠ [])

/-- The output written so far, with `component_marks` and
`component_is_parent` as one stack, innermost component first. -/
structure Normalizing where
  output : Text
  marks : List (ℕ × Bool)

/-- The separator rule: none at the start, after `/` and after `:`. -/
def appendComponent (output component : Text) : Text :=
  match output.getLast? with
  | some last =>
      if last ≠ slash ∧ last ≠ colon then output ++ slash :: component
      else output ++ component
  | none => component

def keepComponent (st : Normalizing) (component : Text) : Normalizing :=
  ⟨appendComponent st.output component,
    (st.output.length, component == dotDotText) :: st.marks⟩

/-- One round of the component loop of `normalize_path`. -/
def pushComponent (absolute : Bool) (st : Normalizing) (component : Text) :
    Option Normalizing :=
  if component = dotText then some st
  else if component = dotDotText then
    match st.marks with
    | (mark, false) :: marks => some ⟨st.output.take mark, marks⟩
    | _ => if absolute then none else some (keepComponent st component)
  else some (keepComponent st component)

/-- The two endings: an empty text is `.`, and a two-byte text that looks like
a drive gets a `.` (the source does this on every platform). -/
def finishOutput (output : Text) : Text :=
  if output = [] then dotText
  else if output.length = 2 ∧ output[1]? = some colon then output ++ dotText
  else output

def isAbsolute (input : Text) : Bool := input.head? == some slash

def startNormalizing (absolute : Bool) : Normalizing :=
  ⟨if absolute then [slash] else [], []⟩

def normalizePath (input : Text) : Option NormalizedPath :=
  if input.length = 0 ∨ maxLocatorBytes < input.length then none
  else
    ((components input).foldlM (pushComponent (isAbsolute input))
      (startNormalizing (isAbsolute input))).map fun st =>
        ⟨finishOutput st.output, isAbsolute input⟩

/-- `normalized_equal` on two present paths. -/
def normalizedEqual (left right : NormalizedPath) : Bool :=
  left.absolute == right.absolute && left.text == right.text

def pathIsWithin (path root : NormalizedPath) : Bool :=
  if path.absolute ≠ root.absolute then false
  else if path.text = root.text then true
  else if !root.absolute ∧ root.text = dotText then
    path.text ≠ dotDotText ∧ ¬ (dotDotText ++ [slash]).isPrefixOf path.text
  else if ¬ root.text.isPrefixOf path.text then false
  else if root.text.getLast? = some slash then true
  else path.text[root.text.length]? = some slash

/-- `strrchr(text, '/')` as an offset. -/
def lastSlash (text : Text) : Option ℕ :=
  (text.reverse.findIdx? (· == slash)).map fun back => text.length - 1 - back

/-- The drive test of `parent_path`; unlike its siblings in `normalize_path`
and `join_path` it is compiled on every platform. -/
def driveLooking (path : NormalizedPath) : Bool :=
  path.absolute && decide (3 ≤ path.text.length) && path.text[1]? == some colon

def rootLength (path : NormalizedPath) : ℕ :=
  if driveLooking path then 3 else if path.absolute then 1 else 0

def parentPath (input : NormalizedPath) : Option NormalizedPath :=
  if input.text.length ≤ rootLength input then normalizePath input.text
  else
    match lastSlash input.text with
    | none => some ⟨dotText, input.absolute⟩
    | some slashAt =>
        some ⟨input.text.take (max slashAt (rootLength input)), input.absolute⟩

def joinPath (base : NormalizedPath) (relative : Text) : Option NormalizedPath :=
  match normalizePath relative with
  | none => none
  | some relativePath =>
      if relativePath.absolute then none
      else
        let baseIsDot := !base.absolute && base.text == dotText
        let front := if baseIsDot then [] else base.text
        let separator :=
          if !baseIsDot && base.text != [] && base.text.getLast? != some slash
          then [slash] else []
        normalizePath (front ++ separator ++ relativePath.text)

example : (normalizePath (ascii "a/./b//../c")).map (·.text) = some (ascii "a/c") := by
  decide

example : (parentPath ⟨ascii "/a/b", true⟩).map (·.text) = some (ascii "/a") := by
  decide

end UnityCommon.PPtr
