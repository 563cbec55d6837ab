import Mathlib.Data.List.Basic

/-!
# `LogFormatter` (`log.h`, `log.cc`)

A pattern is parsed once, by `init`, into the items that print a line. The outer loop runs
over the characters of the pattern; a directive makes it jump ahead, which is a number of
characters to skip. `isalpha` is that of the C locale.
-/

namespace Coroutine

/-- `LogFormatter::FormatItem`: each class with the argument it is constructed with. -/
inductive FormatItem where
  | MessageFormatItem (str : String)
  | LevelFormatItem (str : String)
  | ElapseFormatItem (str : String)
  | NameFormatItem (str : String)
  | ThreadIdFormatItem (str : String)
  | NewLineFormatItem (str : String)
  | DateTimeFormatItem (format : String)
  | FilenameFormatItem (str : String)
  | LineFormatItem (str : String)
  | TabFormatItem (str : String)
  | FiberIdFormatItem (str : String)
  | ThreadNameFormatItem (str : String)
  | StringFormatItem (str : String)
  deriving DecidableEq, Repr

/-- `LogFormatter`. -/
structure LogFormatter where
  m_pattern : String
  m_items : List FormatItem
  m_error : Bool
  deriving DecidableEq, Repr

namespace LogFormatter

/-- An element of `vec`: a literal, type 0, or a directive, type 1. -/
inductive Part where
  | text (str : String)
  | directive (str fmt : String)
  deriving DecidableEq, Repr

/-- `s_format_items`. -/
def s_format_items : String → Option (String → FormatItem)
  | "m" => some .MessageFormatItem
  | "p" => some .LevelFormatItem
  | "r" => some .ElapseFormatItem
  | "c" => some .NameFormatItem
  | "t" => some .ThreadIdFormatItem
  | "n" => some .NewLineFormatItem
  | "d" => some .DateTimeFormatItem
  | "f" => some .FilenameFormatItem
  | "l" => some .LineFormatItem
  | "T" => some .TabFormatItem
  | "F" => some .FiberIdFormatItem
  | "N" => some .ThreadNameFormatItem
  | _ => none

/-- The inner loop with `fmt_status` 1, after the brace that follows `str`: the directive and
the number of characters it takes, unless the pattern ends before the closing brace. -/
def scanFmt (str fmt : List Char) : List Char → Option (Part × ℕ)
  | [] => none
  | c :: cs =>
    if c = '\x7d' then
      some (.directive (String.ofList str) (String.ofList fmt), str.length + fmt.length + 2)
    else scanFmt str (fmt ++ [c]) cs

/-- The inner loop with `fmt_status` 0, on the characters after `%`. -/
def scanStr (str : List Char) : List Char → Option (Part × ℕ)
  | [] => some (.directive (String.ofList str) "", str.length)
  | c :: cs =>
    if ¬ c.isAlpha ∧ c ≠ '\x7b' then some (.directive (String.ofList str) "", str.length)
    else if c = '\x7b' then scanFmt str [] cs
    else scanStr (str ++ [c]) cs

/-- `nstr`, if not empty, as a literal. -/
def flush (nstr : List Char) : List Part :=
  if nstr = [] then [] else [.text (String.ofList nstr)]

/-- The outer loop, about to skip `skip` characters: `vec`, and whether the pattern is in
error. -/
def parse (nstr : List Char) (vec : List Part) (m_error : Bool) :
    (skip : ℕ) → List Char → List Part × Bool
  | _, [] => (vec ++ flush nstr, m_error)
  | skip + 1, _ :: cs => parse nstr vec m_error skip cs
  | 0, c :: cs =>
    if c ≠ '%' then parse (nstr ++ [c]) vec m_error 0 cs
    else if cs.head? = some '%' then parse (nstr ++ ['%']) vec m_error 0 cs
    else
      match scanStr [] cs with
      | some (part, len) => parse [] (vec ++ flush nstr ++ [part]) m_error len cs
      | none => parse nstr (vec ++ [.text "<<pattern_error>>"]) true 0 cs

/-- The item of a part; `none` for an unknown directive. -/
def Part.item : Part → Option FormatItem
  | .text str => some (.StringFormatItem str)
  | .directive str fmt => (s_format_items str).map fun C => C fmt

/-- What stands in for an unknown directive. -/
def Part.itemOrError : Part → FormatItem
  | .text str => .StringFormatItem str
  | .directive str fmt =>
    match s_format_items str with
    | some C => C fmt
    | none => .StringFormatItem ("<<error_format %" ++ str ++ ">>")

/-- The constructor, with `init`. -/
def init (pattern : String) : LogFormatter :=
  let (vec, m_error) := parse [] [] false 0 pattern.toList
  { m_pattern := pattern
    m_items := vec.map Part.itemOrError
    m_error := m_error || vec.any fun part => part.item.isNone }

end LogFormatter

end Coroutine
