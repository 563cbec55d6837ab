import Coroutine.Spec.LogFormat
import Mathlib.Data.List.Chain
import Mathlib.Data.List.TakeWhile

/-!
# The grammar of format patterns

* `scanStr_letters`, `scanFmt_group`, `scanStr_cases`: what the inner loop reads after a `%`.
* `read`: the outer loop, with what a pair of `%` takes as a parameter.
* `PatternItem`: a literal or a directive; `Pattern` lists those that may stand side by side.
* `parse_items`: the outer loop on the characters of such a list.
* `parse_pattern`: a pattern without `%%` that is parsed without an error is such a list.
* `pattern_grammar`: both, for `init`.
-/

namespace Coroutine

namespace LogFormatter

/-! ## The inner loop -/

/-- What ends the letters of a directive without a group. -/
def Stops (cs : List Char) : Prop := ∀ c ∈ cs.head?, ¬ c.isAlpha ∧ c ≠ '\x7b'

theorem scanStr_letters (str : List Char) {letters : List Char} (h : ∀ c ∈ letters, c.isAlpha)
    (cs : List Char) : scanStr str (letters ++ cs) = scanStr (str ++ letters) cs := by
  induction letters generalizing str with
  | nil => rw [List.nil_append, List.append_nil]
  | cons c letters ih =>
    obtain ⟨hc, hrest⟩ := List.forall_mem_cons.1 h
    have hbrace : c ≠ '\x7b' := by
      rintro rfl
      exact absurd hc (by decide)
    rw [List.cons_append, scanStr, if_neg (by simp [hc]), if_neg hbrace, ih _ hrest,
      List.append_assoc]
    rfl

theorem scanStr_stops (str : List Char) {cs : List Char} (h : Stops cs) :
    scanStr str cs = some (.directive (String.ofList str) "", str.length) := by
  cases cs with
  | nil => rfl
  | cons c cs => rw [scanStr, if_pos (h c rfl)]

theorem scanStr_brace (str cs : List Char) : scanStr str ('\x7b' :: cs) = scanFmt str [] cs := by
  rw [scanStr, if_neg (by simp), if_pos rfl]

theorem scanFmt_group (str : List Char) (fmt : List Char) {group : List Char}
    (h : '\x7d' ∉ group) (cs : List Char) :
    scanFmt str fmt (group ++ '\x7d' :: cs) =
      some (.directive (String.ofList str) (String.ofList (fmt ++ group)),
        str.length + (fmt ++ group).length + 2) := by
  induction group generalizing fmt with
  | nil => rw [List.nil_append, List.append_nil, scanFmt, if_pos rfl]
  | cons c group ih =>
    simp only [List.mem_cons, not_or] at h
    obtain ⟨hc, hrest⟩ := h
    rw [List.cons_append, scanFmt, if_neg (Ne.symm hc), ih _ hrest, List.append_assoc]
    rfl

theorem scanFmt_open (str : List Char) (fmt : List Char) {cs : List Char} (h : '\x7d' ∉ cs) :
    scanFmt str fmt cs = none := by
  induction cs generalizing fmt with
  | nil => rfl
  | cons c cs ih =>
    simp only [List.mem_cons, not_or] at h
    obtain ⟨hc, hrest⟩ := h
    rw [scanFmt, if_neg (Ne.symm hc), ih _ hrest]

/-- Letters, up to something else. -/
theorem letters_split (cs : List Char) : ∃ letters rest : List Char, cs = letters ++ rest ∧
    (∀ c ∈ letters, c.isAlpha) ∧ ∀ c ∈ rest.head?, ¬ c.isAlpha := by
  refine ⟨cs.takeWhile (·.isAlpha), cs.dropWhile (·.isAlpha), List.takeWhile_append_dropWhile.symm,
    fun c hc => List.mem_takeWhile_imp hc, fun c hc => ?_⟩
  have hnot := List.head?_dropWhile_not (fun c : Char => c.isAlpha) cs
  rw [Option.mem_def.1 hc] at hnot
  simpa using hnot

/-- **What the inner loop reads**: letters; and if a brace follows them, up to the closing brace,
if there is one. -/
theorem scanStr_cases (cs : List Char) : ∃ letters rest : List Char, cs = letters ++ rest ∧
    (∀ c ∈ letters, c.isAlpha) ∧
    ((Stops rest ∧
        scanStr [] cs = some (.directive (String.ofList letters) "", letters.length)) ∨
      (∃ fmt after, rest = '\x7b' :: fmt ++ '\x7d' :: after ∧ '\x7d' ∉ fmt ∧
        scanStr [] cs = some (.directive (String.ofList letters) (String.ofList fmt),
          letters.length + fmt.length + 2)) ∨
      ∃ more, rest = '\x7b' :: more ∧ '\x7d' ∉ more ∧ scanStr [] cs = none) := by
  obtain ⟨letters, rest, rfl, hletters, hrest⟩ := letters_split cs
  refine ⟨letters, rest, rfl, hletters, ?_⟩
  rw [scanStr_letters [] hletters, List.nil_append]
  by_cases hstops : Stops rest
  · exact .inl ⟨hstops, scanStr_stops letters hstops⟩
  right
  cases rest with
  | nil => exact absurd (fun c hc => by cases hc) hstops
  | cons c more =>
    have hc : c = '\x7b' := by
      by_contra hne
      refine hstops fun c' hc' => ?_
      cases hc'
      exact ⟨hrest c rfl, hne⟩
    subst hc
    rw [scanStr_brace]
    by_cases hclosed : '\x7d' ∈ more
    · obtain ⟨fmt, after, rfl, hfmt⟩ := List.eq_append_cons_of_mem hclosed
      exact .inl ⟨fmt, after, rfl, hfmt, scanFmt_group letters [] hfmt after⟩
    · exact .inr ⟨more, rfl, hclosed, scanFmt_open letters [] hclosed⟩

/-! ## The outer loop -/

/-- The outer loop, if the pair `%%` takes `pair` more characters than the one it is at. -/
def read (pair : ℕ) (nstr : List Char) (vec : List Part) (m_error : Bool) :
    (skip : ℕ) → List Char → List Part × Bool
  | _, [] => (vec ++ flush nstr, m_error)
  | skip + 1, _ :: cs => read pair nstr vec m_error skip cs
  | 0, c :: cs =>
    if c ≠ '%' then read pair (nstr ++ [c]) vec m_error 0 cs
    else if cs.head? = some '%' then read pair (nstr ++ ['%']) vec m_error pair cs
    else
      match scanStr [] cs with
      | some (part, len) => read pair [] (vec ++ flush nstr ++ [part]) m_error len cs
      | none => read pair nstr (vec ++ [.text "<<pattern_error>>"]) true 0 cs

/-- In the source it takes none. -/
theorem parse_eq (nstr : List Char) (vec : List Part) (m_error : Bool) (skip : ℕ)
    (cs : List Char) : parse nstr vec m_error skip cs = read 0 nstr vec m_error skip cs := by
  induction cs generalizing nstr vec m_error skip with
  | nil => rfl
  | cons c cs ih =>
    cases skip with
    | succ skip => exact ih nstr vec m_error skip
    | zero =>
      rw [parse, read]
      split
      · exact ih _ _ _ 0
      · split
        · exact ih _ _ _ 0
        · cases scanStr [] cs with
          | none => exact ih _ _ _ 0
          | some found => exact ih _ _ _ _

/-- What `vec` holds stays, and an error stays. -/
theorem read_grows (pair : ℕ) (nstr : List Char) (vec : List Part) (m_error : Bool) (skip : ℕ)
    (cs : List Char) : vec <+: (read pair nstr vec m_error skip cs).1 ∧
      (m_error = true → (read pair nstr vec m_error skip cs).2 = true) := by
  induction cs generalizing nstr vec m_error skip with
  | nil => exact ⟨by simp [read], fun h => h⟩
  | cons c cs ih =>
    cases skip with
    | succ skip => exact ih nstr vec m_error skip
    | zero =>
      rw [read]
      split
      · exact ih _ _ _ _
      split
      · exact ih _ _ _ _
      split
      · obtain ⟨hvec, herror⟩ := ih [] (vec ++ flush nstr ++ [_]) m_error _
        have hfirst : vec <+: vec ++ flush nstr := List.prefix_append _ _
        exact ⟨(hfirst.trans (List.prefix_append _ _)).trans hvec, herror⟩
      · obtain ⟨hvec, herror⟩ := ih nstr (vec ++ [.text "<<pattern_error>>"]) true 0
        exact ⟨(List.prefix_append _ _).trans hvec, fun _ => herror rfl⟩

/-! ## Patterns -/

/-- The letters of the known directives. -/
def known : List Char := ['m', 'p', 'r', 'c', 't', 'n', 'd', 'f', 'l', 'T', 'F', 'N']

theorem s_format_items_isSome {str : String} :
    (s_format_items str).isSome ↔ ∃ letter ∈ known, str = String.ofList [letter] := by
  constructor
  · intro h
    unfold s_format_items at h
    split at h <;> first
      | exact ⟨_, by decide, rfl⟩
      | cases h
  · rintro ⟨letter, hletter, rfl⟩
    have hall : known.all (fun c => (s_format_items (String.ofList [c])).isSome) = true := by decide
    exact List.all_eq_true.1 hall letter hletter

theorem known_isAlpha {letter : Char} (h : letter ∈ known) : letter.isAlpha := by
  have hall : known.all Char.isAlpha = true := by decide
  exact List.all_eq_true.1 hall letter h

/-- A literal, or `%` with a letter and the format in braces, if any. -/
inductive PatternItem where
  | literal (text : List Char)
  | directive (letter : Char) (fmt : Option (List Char))

namespace PatternItem

/-- How an item is written. -/
def chars : PatternItem → List Char
  | .literal text => text
  | .directive letter none => ['%', letter]
  | .directive letter (some fmt) => '%' :: letter :: '\x7b' :: fmt ++ ['\x7d']

/-- What is built from an item. -/
def part : PatternItem → Part
  | .literal text => .text (String.ofList text)
  | .directive letter fmt => .directive (String.ofList [letter]) (String.ofList (fmt.getD []))

/-- A literal that is not empty and has no `%`; a known letter, and a format without a closing
brace. -/
def WellFormed : PatternItem → Prop
  | .literal text => text ≠ [] ∧ '%' ∉ text
  | .directive letter fmt =>
    letter ∈ known ∧ ∀ f ∈ fmt, '\x7d' ∉ f

/-- A literal directly after a directive without a format starts with neither a letter nor a
brace. -/
def Beside : PatternItem → PatternItem → Prop
  | .directive _ none, .literal text => Stops text
  | _, _ => True

end PatternItem

/-- **A well-formed pattern.** -/
structure Pattern where
  items : List PatternItem
  each : ∀ i ∈ items, i.WellFormed
  beside : items.IsChain PatternItem.Beside

/-- A pattern as it is written. -/
def Pattern.text (p : Pattern) : String := String.ofList (p.items.flatMap PatternItem.chars)

/-- A literal before items, merged with the first if that is a literal too. -/
def consLiteral (text : List Char) : List PatternItem → List PatternItem
  | .literal text' :: items => .literal (text ++ text') :: items
  | items => .literal text :: items

/-- The items with adjacent literals merged. -/
def merge : List PatternItem → List PatternItem
  | [] => []
  | .literal text :: items => consLiteral text (merge items)
  | .directive letter fmt :: items => .directive letter fmt :: merge items

/-- The elements of `vec` that come from items, after the literal `nstr`. -/
def partsAfter (nstr : List Char) : List PatternItem → List Part
  | [] => flush nstr
  | .literal text :: items => partsAfter (nstr ++ text) items
  | .directive letter fmt :: items =>
    flush nstr ++ (PatternItem.directive letter fmt).part :: partsAfter [] items

theorem consLiteral_append (text text' : List Char) (items : List PatternItem) :
    consLiteral text (consLiteral text' items) = consLiteral (text ++ text') items := by
  cases items with
  | nil => rfl
  | cons i items =>
    cases i with
    | literal u => simp only [consLiteral, List.append_assoc]
    | directive letter fmt => rfl

/-- **The elements are the merged items.** -/
theorem partsAfter_eq {items : List PatternItem} (h : ∀ i ∈ items, i.WellFormed) (nstr : List Char) :
    partsAfter nstr items =
      (if nstr = [] then merge items else consLiteral nstr (merge items)).map PatternItem.part := by
  induction items generalizing nstr with
  | nil =>
    by_cases hn : nstr = []
    · rw [if_pos hn, partsAfter, flush, if_pos hn]
      rfl
    · rw [if_neg hn, partsAfter, flush, if_neg hn]
      rfl
  | cons i items ih =>
    obtain ⟨hone, hrest⟩ := List.forall_mem_cons.1 h
    cases i with
    | literal text =>
      have hne : nstr ++ text ≠ [] := fun heq => hone.1 (List.append_eq_nil_iff.1 heq).2
      rw [partsAfter, ih hrest, if_neg hne, merge, consLiteral_append]
      by_cases hn : nstr = []
      · rw [if_pos hn, hn, List.nil_append]
      · rw [if_neg hn]
    | directive letter fmt =>
      rw [partsAfter, ih hrest, if_pos rfl, merge]
      by_cases hn : nstr = []
      · rw [if_pos hn, flush, if_pos hn]
        rfl
      · rw [if_neg hn, flush, if_neg hn]
        rfl

/-! ## Items to elements -/

theorem parse_literal (nstr : List Char) (vec : List Part) (m_error : Bool) {text : List Char}
    (h : '%' ∉ text) (cs : List Char) :
    parse nstr vec m_error 0 (text ++ cs) = parse (nstr ++ text) vec m_error 0 cs := by
  induction text generalizing nstr with
  | nil => rw [List.nil_append, List.append_nil]
  | cons c text ih =>
    simp only [List.mem_cons, not_or] at h
    rw [List.cons_append, parse, if_pos (Ne.symm h.1), ih _ h.2, List.append_assoc]
    rfl

theorem parse_skip (nstr : List Char) (vec : List Part) (m_error : Bool) (read cs : List Char) :
    parse nstr vec m_error read.length (read ++ cs) = parse nstr vec m_error 0 cs := by
  induction read with
  | nil => rfl
  | cons c read ih => exact ih

/-- A directive that the inner loop reads. -/
theorem parse_directive (nstr : List Char) (vec : List Part) (m_error : Bool) {read cs : List Char}
    {part : Part} (hhead : (read ++ cs).head? ≠ some '%')
    (hscan : scanStr [] (read ++ cs) = some (part, read.length)) :
    parse nstr vec m_error 0 ('%' :: (read ++ cs)) =
      parse [] (vec ++ flush nstr ++ [part]) m_error 0 cs := by
  rw [parse, if_neg (not_not.2 rfl), if_neg hhead, hscan]
  exact parse_skip [] (vec ++ flush nstr ++ [part]) m_error read cs

/-- What follows a directive without a format, in a pattern, stops its letters. -/
theorem stops_after {letter : Char} {items : List PatternItem}
    (heach : ∀ i ∈ items, i.WellFormed)
    (hbeside : (PatternItem.directive letter none :: items).IsChain PatternItem.Beside) :
    Stops (items.flatMap PatternItem.chars) := by
  cases items with
  | nil => intro c hc; cases hc
  | cons i items =>
    have hone : PatternItem.Beside (.directive letter none) i := (List.isChain_cons_cons.1 hbeside).1
    cases i with
    | literal text =>
      cases text with
      | nil => exact absurd rfl (heach _ List.mem_cons_self).1
      | cons c text => exact hone
    | directive letter' fmt =>
      intro c hc
      cases fmt <;> cases hc <;> decide

/-- **The outer loop on items.** -/
theorem parse_items {items : List PatternItem} (heach : ∀ i ∈ items, i.WellFormed)
    (hbeside : items.IsChain PatternItem.Beside) (nstr : List Char) (vec : List Part)
    (m_error : Bool) :
    parse nstr vec m_error 0 (items.flatMap PatternItem.chars) =
      (vec ++ partsAfter nstr items, m_error) := by
  induction items generalizing nstr vec with
  | nil => rfl
  | cons i items ih =>
    obtain ⟨hone, hrest⟩ := List.forall_mem_cons.1 heach
    have hnext := ih hrest hbeside.tail
    rw [List.flatMap_cons]
    cases i with
    | literal text => rw [PatternItem.chars, parse_literal nstr vec m_error hone.2, hnext, partsAfter]
    | directive letter fmt =>
      obtain ⟨hknown, hfmt⟩ := hone
      have halpha : ∀ c ∈ [letter], c.isAlpha := by simpa using known_isAlpha hknown
      have hletter : some letter ≠ some '%' := by
        rintro heq
        cases heq
        exact absurd (known_isAlpha hknown) (by decide)
      -- what the inner loop reads is the rest of the item
      have hread : ∃ read, (PatternItem.directive letter fmt).chars = '%' :: letter :: read ∧
          scanStr [] (letter :: read ++ items.flatMap PatternItem.chars) =
            some ((PatternItem.directive letter fmt).part, (letter :: read).length) := by
        cases fmt with
        | none =>
          refine ⟨[], rfl, ?_⟩
          have hscan := scanStr_letters [] halpha (items.flatMap PatternItem.chars)
          rw [scanStr_stops _ (stops_after hrest hbeside)] at hscan
          exact hscan
        | some fmt =>
          refine ⟨'\x7b' :: fmt ++ ['\x7d'], rfl, ?_⟩
          have hscan := scanStr_letters [] halpha
            ('\x7b' :: (fmt ++ '\x7d' :: items.flatMap PatternItem.chars))
          rw [scanStr_brace, scanFmt_group _ _ (hfmt fmt rfl)] at hscan
          have hlength : (letter :: ('\x7b' :: fmt ++ ['\x7d'])).length = 1 + fmt.length + 2 := by
            simp only [List.length_cons, List.cons_append, List.length_append, List.length_nil]
            omega
          rw [hlength]
          simpa [PatternItem.part] using hscan
      obtain ⟨read, hchars, hscan⟩ := hread
      rw [hchars, List.cons_append, parse_directive nstr vec m_error (by simpa using hletter) hscan,
        hnext, partsAfter]
      simp

/-! ## Elements to items -/

/-- **`%%` outside of a format**, pairs read from left to right; the first `skip` characters belong
to a directive that was read. -/
def hasPair : (skip : ℕ) → List Char → Bool
  | _, [] => false
  | skip + 1, _ :: cs => hasPair skip cs
  | 0, c :: cs =>
    if c ≠ '%' then hasPair 0 cs
    else if cs.head? = some '%' then true
    else
      match scanStr [] cs with
      | some (_, len) => hasPair len cs
      | none => hasPair 0 cs

theorem parse_grows (nstr : List Char) (vec : List Part) (m_error : Bool) (skip : ℕ)
    (cs : List Char) : vec <+: (parse nstr vec m_error skip cs).1 ∧
      (m_error = true → (parse nstr vec m_error skip cs).2 = true) := by
  rw [parse_eq]
  exact read_grows 0 nstr vec m_error skip cs

/-- One more item in front. -/
theorem chain_cons {i : PatternItem} {items : List PatternItem}
    (hbeside : items.IsChain PatternItem.Beside)
    (h : ∀ letter, i = .directive letter none → Stops (items.flatMap PatternItem.chars)) :
    (i :: items).IsChain PatternItem.Beside := by
  cases items with
  | nil => exact List.isChain_singleton i
  | cons j items =>
    refine List.isChain_cons_cons.2 ⟨?_, hbeside⟩
    cases i with
    | literal text => trivial
    | directive letter fmt =>
      cases fmt with
      | some fmt => cases j <;> trivial
      | none =>
        have hstops := h letter rfl
        cases j with
        | directive letter' fmt' => trivial
        | literal text =>
          intro c hc
          refine hstops c ?_
          rw [List.flatMap_cons, PatternItem.chars]
          cases text with
          | nil => cases hc
          | cons c' text => exact hc

/-- A known directive that the inner loop reads is an item. -/
theorem scanStr_item {cs : List Char} {part : Part} {len : ℕ} (hscan : scanStr [] cs = some (part, len))
    (hknown : part.item.isSome) :
    ∃ i : PatternItem, i.WellFormed ∧ i.chars ++ cs.drop len = '%' :: cs ∧
      ∀ letter, i = .directive letter none → Stops (cs.drop len) := by
  obtain ⟨letters, rest, rfl, -, hcase⟩ := scanStr_cases cs
  rcases hcase with ⟨hstops, heq⟩ | ⟨fmt, after, rfl, hfmt, heq⟩ | ⟨more, -, -, heq⟩
  · rw [heq] at hscan
    cases hscan
    obtain ⟨letter, hletter, hstr⟩ : ∃ letter ∈ known, String.ofList letters = String.ofList [letter] :=
      s_format_items_isSome.1 (by simpa [Part.item] using hknown)
    obtain rfl : letters = [letter] := by simpa using congrArg String.toList hstr
    refine ⟨.directive letter none, ⟨hletter, fun f hf => by cases hf⟩, ?_, fun _ _ => ?_⟩
    · rw [List.drop_left]
      rfl
    · rwa [List.drop_left]
  · rw [heq] at hscan
    cases hscan
    obtain ⟨letter, hletter, hstr⟩ : ∃ letter ∈ known, String.ofList letters = String.ofList [letter] :=
      s_format_items_isSome.1 (by simpa [Part.item] using hknown)
    obtain rfl : letters = [letter] := by simpa using congrArg String.toList hstr
    refine ⟨.directive letter (some fmt), ⟨hletter, fun f hf => by cases hf; exact hfmt⟩, ?_,
      fun _ h => by cases h⟩
    have hlen : [letter].length + fmt.length + 2 = (letter :: '\x7b' :: fmt ++ ['\x7d']).length := by
      simp only [List.length_cons, List.cons_append, List.length_append, List.length_nil]
      omega
    have hcs : [letter] ++ ('\x7b' :: fmt ++ '\x7d' :: after) =
        (letter :: '\x7b' :: fmt ++ ['\x7d']) ++ after := by simp
    rw [hlen, hcs, List.drop_left]
    rfl
  · rw [heq] at hscan
    cases hscan

/-- **A pattern parsed without an error is made of items.** -/
theorem parse_pattern (cs : List Char) (nstr : List Char) (vec : List Part) (m_error : Bool)
    (skip : ℕ) (hpair : hasPair skip cs = false)
    (herror : (parse nstr vec m_error skip cs).2 = false)
    (hknown : ∀ part ∈ (parse nstr vec m_error skip cs).1, part.item.isSome) :
    ∃ items : List PatternItem, (∀ i ∈ items, i.WellFormed) ∧ items.IsChain PatternItem.Beside ∧
      items.flatMap PatternItem.chars = cs.drop skip := by
  induction cs generalizing nstr vec m_error skip with
  | nil => exact ⟨[], by simp, .nil, by simp⟩
  | cons c cs ih =>
    cases skip with
    | succ skip => exact ih nstr vec m_error skip hpair herror hknown
    | zero =>
      rw [parse] at herror hknown
      rw [hasPair] at hpair
      by_cases hc : c = '%'
      · subst hc
        simp only [ne_eq, not_true_eq_false, if_false] at herror hknown hpair
        by_cases hhead : cs.head? = some '%'
        · simp [hhead] at hpair
        simp only [hhead, if_false] at herror hknown hpair
        cases hscan : scanStr [] cs with
        | none =>
          rw [hscan] at herror
          have hstays := (parse_grows nstr (vec ++ [.text "<<pattern_error>>"]) true 0 cs).2 rfl
          rw [hstays] at herror
          cases herror
        | some found =>
          obtain ⟨part, len⟩ := found
          rw [hscan] at herror hknown hpair
          obtain ⟨items, heach, hbeside, hchars⟩ := ih _ _ _ len hpair herror hknown
          have hmem : part ∈ (parse [] (vec ++ flush nstr ++ [part]) m_error len cs).1 :=
            (parse_grows _ _ _ _ _).1.subset (by simp)
          obtain ⟨i, hi, hicons, hstops⟩ := scanStr_item hscan (hknown part hmem)
          rw [← hchars] at hicons hstops
          refine ⟨i :: items, List.forall_mem_cons.2 ⟨hi, heach⟩, chain_cons hbeside hstops, ?_⟩
          rw [List.flatMap_cons, hicons]
          rfl
      · simp only [ne_eq, hc, not_false_eq_true, if_true] at herror hknown hpair
        obtain ⟨items, heach, hbeside, hchars⟩ := ih _ _ _ 0 hpair herror hknown
        have hone : (PatternItem.literal [c]).WellFormed := ⟨by simp, by simpa using Ne.symm hc⟩
        refine ⟨.literal [c] :: items, List.forall_mem_cons.2 ⟨hone, heach⟩,
          chain_cons hbeside (fun _ h => by cases h), ?_⟩
        rw [List.flatMap_cons, hchars]
        rfl

/-! ## `init` -/

/-- What `init` builds from an item; `none` if it could not be built. -/
def PatternItem.item (i : PatternItem) : Option FormatItem := i.part.item

theorem PatternItem.WellFormed.builds {i : PatternItem} (h : i.WellFormed) :
    i.item = some i.part.itemOrError := by
  cases i with
  | literal text => rfl
  | directive letter fmt =>
    have hsome := s_format_items_isSome.2 ⟨letter, h.1, rfl⟩
    obtain ⟨C, hC⟩ := Option.isSome_iff_exists.1 hsome
    unfold PatternItem.item PatternItem.part Part.item Part.itemOrError
    dsimp only
    rw [hC]
    rfl

theorem consLiteral_wellFormed {text : List Char} (htext : text ≠ [] ∧ '%' ∉ text)
    {items : List PatternItem} (h : ∀ i ∈ items, i.WellFormed) :
    ∀ i ∈ consLiteral text items, i.WellFormed := by
  cases items with
  | nil => exact List.forall_mem_cons.2 ⟨htext, h⟩
  | cons j items =>
    obtain ⟨hone, hrest⟩ := List.forall_mem_cons.1 h
    cases j with
    | directive letter fmt => exact List.forall_mem_cons.2 ⟨htext, h⟩
    | literal text' =>
      refine List.forall_mem_cons.2 ⟨⟨by simp [htext.1], ?_⟩, hrest⟩
      rw [List.mem_append, not_or]
      exact ⟨htext.2, hone.2⟩

theorem merge_wellFormed {items : List PatternItem} (h : ∀ i ∈ items, i.WellFormed) :
    ∀ i ∈ merge items, i.WellFormed := by
  induction items with
  | nil => exact fun i hi => absurd hi List.not_mem_nil
  | cons i items ih =>
    obtain ⟨hone, hrest⟩ := List.forall_mem_cons.1 h
    cases i with
    | literal text => exact consLiteral_wellFormed hone (ih hrest)
    | directive letter fmt => exact List.forall_mem_cons.2 ⟨hone, ih hrest⟩

/-- **The grammar.** A well-formed pattern has no error and builds its items in order, adjacent
literals merged; and a pattern with no `%%` outside of a format has no error only if it is
well formed. -/
theorem pattern_grammar :
    (∀ p : Pattern, (init p.text).m_error = false ∧
      (init p.text).m_items.map some = (merge p.items).map PatternItem.item) ∧
    ∀ pattern : String, hasPair 0 pattern.toList = false → (init pattern).m_error = false →
      ∃ p : Pattern, p.text = pattern := by
  constructor
  · intro p
    have hmerge := merge_wellFormed p.each
    have hparse : parse [] [] false 0 p.text.toList =
        ((merge p.items).map PatternItem.part, false) := by
      unfold Pattern.text
      rw [String.toList_ofList, parse_items p.each p.beside, partsAfter_eq p.each, if_pos rfl]
      rfl
    unfold init
    rw [hparse]
    constructor
    · dsimp only
      rw [Bool.false_or, List.any_map, List.any_eq_false]
      intro i hi
      have hbuilds := (hmerge i hi).builds
      simp only [Function.comp_apply, PatternItem.item] at hbuilds ⊢
      simp [hbuilds]
    · rw [List.map_map, List.map_map]
      exact List.map_congr_left fun i hi => ((hmerge i hi).builds).symm
  · intro pattern hpair herror
    unfold init at herror
    simp only [Bool.or_eq_false_iff, List.any_eq_false] at herror
    obtain ⟨items, heach, hbeside, hchars⟩ := parse_pattern pattern.toList [] [] false 0 hpair herror.1
      fun part hpart => by simpa [Option.isSome_iff_ne_none] using herror.2 part hpart
    refine ⟨⟨items, heach, hbeside⟩, ?_⟩
    unfold Pattern.text
    rw [hchars, List.drop_zero, String.ofList_toList]

/-- A directive with a format, and one that a bracket ends. -/
example : init "%d\x7b%H:%M\x7d [%p]%n" =
    { m_pattern := "%d\x7b%H:%M\x7d [%p]%n"
      m_items := [.DateTimeFormatItem "%H:%M", .StringFormatItem " [", .LevelFormatItem "",
        .StringFormatItem "]", .NewLineFormatItem ""]
      m_error := false } := by
  decide

end LogFormatter

end Coroutine
