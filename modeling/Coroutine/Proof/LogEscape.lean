import Coroutine.Proof.LogPattern
import Mathlib.Data.List.Basic

/-!
# The escape `%%`

`init` appends a `%` for the pair and goes on at its second character, which it then takes for the
start of a directive, or of another pair.

* `escaped`: the constructor with both characters consumed, `read 1` where the source is `read 0`.
* `first_pair`: up to the first pair both do the same.
* `read_text`: a literal under way becomes the first element that is not `<<pattern_error>>`.
* `length_le`: without a closing brace the source never makes fewer elements.
* `escape_iff`: so the two agree on exactly the patterns without a pair.
-/

namespace Coroutine

namespace LogFormatter

/-- The constructor, if `%%` is consumed whole and stands for one `%`. -/
def escaped (pattern : String) : LogFormatter :=
  let (vec, m_error) := read 1 [] [] false 0 pattern.toList
  { m_pattern := pattern
    m_items := vec.map Part.itemOrError
    m_error := m_error || vec.any fun part => part.item.isNone }

variable {pair : ℕ} {nstr : List Char} {vec : List Part} {m_error : Bool} {skip : ℕ}
  {cs : List Char}

theorem read_literal {c : Char} (hc : c ≠ '%') :
    read pair nstr vec m_error 0 (c :: cs) = read pair (nstr ++ [c]) vec m_error 0 cs := by
  rw [read, if_pos hc]

theorem read_pair : read pair nstr vec m_error 0 ('%' :: '%' :: cs) =
    read pair (nstr ++ ['%']) vec m_error pair ('%' :: cs) := by
  rw [read, if_neg (not_not.2 rfl), List.head?_cons, if_pos rfl]

theorem read_directive (hhead : cs.head? ≠ some '%') {part : Part} {len : ℕ}
    (hscan : scanStr [] cs = some (part, len)) :
    read pair nstr vec m_error 0 ('%' :: cs) =
      read pair [] (vec ++ flush nstr ++ [part]) m_error len cs := by
  rw [read, if_neg (not_not.2 rfl), if_neg hhead, hscan]

theorem read_open (hhead : cs.head? ≠ some '%') (hscan : scanStr [] cs = none) :
    read pair nstr vec m_error 0 ('%' :: cs) =
      read pair nstr (vec ++ [.text "<<pattern_error>>"]) true 0 cs := by
  rw [read, if_neg (not_not.2 rfl), if_neg hhead, hscan]

/-- **Both readings come to the first pair in the same state**, and there is none if they meet no
pair. -/
theorem first_pair (cs : List Char) (nstr : List Char) (vec : List Part) (m_error : Bool)
    (skip : ℕ) :
    if hasPair skip cs then
      ∃ nstr' vec' m_error' rest, ∀ pair, read pair nstr vec m_error skip cs =
        read pair nstr' vec' m_error' 0 ('%' :: '%' :: rest)
    else ∀ pair, read pair nstr vec m_error skip cs = read 0 nstr vec m_error skip cs := by
  induction cs generalizing nstr vec m_error skip with
  | nil => exact fun _ => rfl
  | cons c cs ih =>
    cases skip with
    | succ skip => exact ih nstr vec m_error skip
    | zero =>
      by_cases hc : c = '%'
      · subst hc
        by_cases hhead : cs.head? = some '%'
        · obtain ⟨rest, rfl⟩ := List.head?_eq_some_iff.1 hhead
          rw [if_pos (by simp [hasPair])]
          exact ⟨nstr, vec, m_error, rest, fun _ => rfl⟩
        cases hscan : scanStr [] cs with
        | some found =>
          obtain ⟨part, len⟩ := found
          have hpair : hasPair 0 ('%' :: cs) = hasPair len cs := by simp [hasPair, hhead, hscan]
          simp only [hpair, read_directive hhead hscan]
          exact ih _ _ _ len
        | none =>
          have hpair : hasPair 0 ('%' :: cs) = hasPair 0 cs := by simp [hasPair, hhead, hscan]
          simp only [hpair, read_open hhead hscan]
          exact ih _ _ _ 0
      · have hpair : hasPair 0 (c :: cs) = hasPair 0 cs := by simp [hasPair, hc]
        simp only [hpair, read_literal hc]
        exact ih _ _ _ 0

/-! ## The first literal -/

/-- `<<pattern_error>>`, as an element. -/
def patternError : Part := .text "<<pattern_error>>"

/-- Nothing but `<<pattern_error>>` comes before the literal `text`. -/
def StartsWith (text : List Char) (parts : List Part) : Prop :=
  ∃ n rest, parts = List.replicate n patternError ++ .text (String.ofList text) :: rest

/-- `vec'` is `vec` with elements after it that start with `nstr` and `text`. -/
def Continues (nstr text : List Char) (vec vec' : List Part) : Prop :=
  ∃ parts, vec' = vec ++ parts ∧ StartsWith (nstr ++ text) parts

theorem continues_append {text : List Char} {c : Char} {vec' : List Part}
    (h : Continues (nstr ++ [c]) text vec vec') : Continues nstr (c :: text) vec vec' := by
  obtain ⟨parts, heq, hstarts⟩ := h
  exact ⟨parts, heq, by rwa [List.append_assoc] at hstarts⟩

theorem continues_error {text : List Char} {vec' : List Part}
    (h : Continues nstr text (vec ++ [patternError]) vec') : Continues nstr text vec vec' := by
  obtain ⟨parts, heq, n, rest, rfl⟩ := h
  exact ⟨_, by rw [heq, List.append_assoc]; rfl, n + 1, rest, rfl⟩

/-- A directive ends the literal. -/
theorem continues_directive (pair : ℕ) (vec : List Part) (m_error : Bool) (hn : nstr ≠ [])
    (hhead : cs.head? ≠ some '%') {part : Part} {len : ℕ}
    (hscan : scanStr [] cs = some (part, len)) :
    ∃ more, (read pair nstr vec m_error 0 ('%' :: cs)).1 =
      vec ++ .text (String.ofList nstr) :: part :: more := by
  obtain ⟨more, hmore⟩ := (read_grows pair [] (vec ++ flush nstr ++ [part]) m_error len cs).1
  rw [read_directive hhead hscan, ← hmore, flush, if_neg hn]
  exact ⟨more, by simp⟩

/-- **A literal under way** comes before all else but errors, with what is appended to it. -/
theorem read_text (pair : ℕ) (cs : List Char) {nstr : List Char} (hn : nstr ≠ []) (vec : List Part)
    (m_error : Bool) (skip : ℕ) :
    ∃ text, Continues nstr text vec (read pair nstr vec m_error skip cs).1 := by
  induction cs generalizing nstr vec m_error skip with
  | nil => exact ⟨[], flush nstr, rfl, 0, [], by rw [flush, if_neg hn, List.append_nil]; rfl⟩
  | cons c cs ih =>
    cases skip with
    | succ skip => exact ih hn vec m_error skip
    | zero =>
      have hnext : ∀ c : Char, nstr ++ [c] ≠ [] := by simp
      by_cases hc : c = '%'
      · subst hc
        by_cases hhead : cs.head? = some '%'
        · obtain ⟨rest, rfl⟩ := List.head?_eq_some_iff.1 hhead
          obtain ⟨text, htext⟩ := ih (hnext '%') vec m_error pair
          exact ⟨'%' :: text, continues_append htext⟩
        cases hscan : scanStr [] cs with
        | some found =>
          obtain ⟨more, hmore⟩ := continues_directive pair vec m_error hn hhead hscan
          exact ⟨[], _, hmore, 0, _, by rw [List.append_nil]; rfl⟩
        | none =>
          obtain ⟨text, htext⟩ := ih hn (vec ++ [patternError]) true 0
          rw [read_open hhead hscan]
          exact ⟨text, continues_error htext⟩
      · obtain ⟨text, htext⟩ := ih (hnext c) vec m_error 0
        rw [read_literal hc]
        exact ⟨c :: text, continues_append htext⟩

/-- Before something else than `%`, that is what is appended first. -/
theorem read_text_head (pair : ℕ) (vec : List Part) (m_error : Bool) (hn : nstr ≠ [])
    (hhead : cs.head? ≠ some '%') :
    ∃ text, text.head? = cs.head? ∧
      Continues nstr text vec (read pair nstr vec m_error 0 cs).1 := by
  cases cs with
  | nil => exact ⟨[], rfl, flush nstr, rfl, 0, [], by rw [flush, if_neg hn, List.append_nil]; rfl⟩
  | cons c cs =>
    have hc : c ≠ '%' := fun heq => hhead (by rw [heq]; rfl)
    obtain ⟨text, htext⟩ := read_text pair cs (by simp : nstr ++ [c] ≠ []) vec m_error 0
    rw [read_literal hc]
    exact ⟨c :: text, rfl, continues_append htext⟩

/-- So it is before a `%` that starts a directive. -/
theorem read_text_directive (pair : ℕ) (vec : List Part) (m_error : Bool) (hn : nstr ≠ [])
    (hhead : cs.head? ≠ some '%') :
    ∃ text, text.head? ≠ some '%' ∧
      Continues nstr text vec (read pair nstr vec m_error 0 ('%' :: cs)).1 := by
  cases hscan : scanStr [] cs with
  | some found =>
    obtain ⟨more, hmore⟩ := continues_directive pair vec m_error hn hhead hscan
    exact ⟨[], by simp, _, hmore, 0, _, by rw [List.append_nil]; rfl⟩
  | none =>
    obtain ⟨text, htext, hcontinues⟩ := read_text_head pair (vec ++ [patternError]) true hn hhead
    rw [read_open hhead hscan]
    exact ⟨text, by rwa [htext], continues_error hcontinues⟩

/-! ## The number of elements -/

/-- The elements so far and the literal under way. -/
def weight (nstr : List Char) (vec : List Part) : ℕ := vec.length + (flush nstr).length

theorem weight_snoc (nstr : List Char) (c : Char) (vec : List Part) :
    weight (nstr ++ [c]) vec = vec.length + 1 := by
  unfold weight flush
  rw [if_neg (by simp)]
  rfl

theorem weight_of_ne (hn : nstr ≠ []) (vec : List Part) : weight nstr vec = vec.length + 1 := by
  unfold weight flush
  rw [if_neg hn]
  rfl

theorem weight_le_snoc (nstr : List Char) (c : Char) (vec : List Part) :
    weight nstr vec ≤ weight (nstr ++ [c]) vec := by
  rw [weight_snoc]
  unfold weight flush
  split <;> simp

/-- What is appended to both keeps the difference. -/
theorem weight_snoc_le {nstr nstr' : List Char} {vec vec' : List Part} {d : ℕ}
    (hempty : nstr' = [] → nstr = []) (hd : weight nstr' vec' + d ≤ weight nstr vec) (c : Char) :
    weight (nstr' ++ [c]) vec' + d ≤ weight (nstr ++ [c]) vec := by
  rw [weight_snoc, weight_snoc]
  by_cases hn : nstr' = []
  · rw [hempty hn, hn] at hd
    simpa [weight, flush, Nat.add_right_comm] using hd
  · have hle := weight_le_snoc nstr 'c' vec
    rw [weight_snoc] at hle
    rw [weight_of_ne hn] at hd
    omega

theorem weight_directive (nstr : List Char) (vec : List Part) (part : Part) :
    weight [] (vec ++ flush nstr ++ [part]) = weight nstr vec + 1 := by
  unfold weight
  rw [List.length_append, List.length_append]
  rfl

theorem weight_open (nstr : List Char) (vec : List Part) (part : Part) :
    weight nstr (vec ++ [part]) = weight nstr vec + 1 := by
  simp [weight]
  omega

/-- Without a closing brace the inner loop reads letters alone, or fails. -/
theorem scanStr_no_brace (hbrace : '\x7d' ∉ cs) :
    (∃ part len, scanStr [] cs = some (part, len) ∧ ∀ c ∈ cs.take len, c.isAlpha) ∨
      scanStr [] cs = none := by
  obtain ⟨letters, rest, hcs, halpha, hcase⟩ := scanStr_cases cs
  rcases hcase with ⟨-, hscan⟩ | ⟨fmt, after, hrest, -, -⟩ | ⟨-, -, -, hscan⟩
  · refine .inl ⟨_, _, hscan, ?_⟩
    rw [hcs, List.take_left]
    exact halpha
  · exact absurd (by rw [hcs, hrest]; simp) hbrace
  · exact .inr hscan

/-- A step of the source makes no element less, and what it is to skip are letters. -/
theorem source_step (nstr : List Char) (vec : List Part) (m_error : Bool) (c : Char)
    (hbrace : '\x7d' ∉ cs) :
    ∃ nstr₁ vec₁ m_error₁ a,
      read 0 nstr vec m_error 0 (c :: cs) = read 0 nstr₁ vec₁ m_error₁ a cs ∧
      weight nstr vec ≤ weight nstr₁ vec₁ ∧ ∀ c ∈ cs.take a, c.isAlpha := by
  have hletters : ∀ c ∈ cs.take 0, c.isAlpha := by simp
  by_cases hc : c = '%'
  · subst hc
    by_cases hhead : cs.head? = some '%'
    · obtain ⟨rest, rfl⟩ := List.head?_eq_some_iff.1 hhead
      exact ⟨_, _, _, 0, read_pair, weight_le_snoc nstr '%' vec, hletters⟩
    rcases scanStr_no_brace hbrace with ⟨part, len, hscan, halpha⟩ | hscan
    · refine ⟨_, _, _, len, read_directive hhead hscan, ?_, halpha⟩
      rw [weight_directive]
      exact Nat.le_succ _
    · refine ⟨_, _, _, 0, read_open hhead hscan, ?_, hletters⟩
      rw [weight_open]
      exact Nat.le_succ _
  · exact ⟨_, _, _, 0, read_literal hc, weight_le_snoc nstr c vec, hletters⟩

/-- **Without a closing brace the source makes as many more elements as it has already made.** The
source is at `a` characters to skip, all of them letters, when the other is at `b`; and if the
other has no literal under way, neither has the source, and both skip the same. -/
theorem length_le (cs : List Char) (hbrace : '\x7d' ∉ cs) (a b d : ℕ) (nstr nstr' : List Char)
    (vec vec' : List Part) (m_error m_error' : Bool) (ha : ∀ c ∈ cs.take a, c.isAlpha)
    (hsync : nstr' = [] → nstr = [] ∧ a = b) (hd : weight nstr' vec' + d ≤ weight nstr vec) :
    (read 1 nstr' vec' m_error' b cs).1.length + d ≤ (read 0 nstr vec m_error a cs).1.length := by
  induction cs generalizing a b nstr nstr' vec vec' m_error m_error' with
  | nil => simpa [read, weight] using hd
  | cons c cs ih =>
    simp only [List.mem_cons, not_or] at hbrace
    have hgo := ih hbrace.2
    -- a literal under way, if the two skip differently
    have hne : a ≠ b → nstr' ≠ [] := fun hab h => hab (hsync h).2
    rcases a with _ | a <;> rcases b with _ | b
    · -- both read `c`
      have hempty : nstr' = [] → nstr = [] := fun h => (hsync h).1
      have hletters : ∀ c ∈ cs.take 0, c.isAlpha := by simp
      have hnever : ∀ {c : Char} {b : ℕ}, nstr' ++ [c] = [] → nstr ++ [c] = [] ∧ 0 = b :=
        fun h => absurd h (by simp)
      by_cases hc : c = '%'
      · subst hc
        by_cases hhead : cs.head? = some '%'
        · obtain ⟨rest, rfl⟩ := List.head?_eq_some_iff.1 hhead
          rw [read_pair, read_pair]
          exact hgo 0 1 _ _ _ _ _ _ hletters hnever (weight_snoc_le hempty hd '%')
        rcases scanStr_no_brace hbrace.2 with ⟨part, len, hscan, halpha⟩ | hscan
        · rw [read_directive hhead hscan, read_directive hhead hscan]
          refine hgo len len _ _ _ _ _ _ halpha (fun _ => ⟨rfl, rfl⟩) ?_
          rw [weight_directive, weight_directive]
          omega
        · rw [read_open hhead hscan, read_open hhead hscan]
          refine hgo 0 0 _ _ _ _ _ _ hletters hsync ?_
          rw [weight_open, weight_open]
          omega
      · rw [read_literal hc, read_literal hc]
        exact hgo 0 0 _ _ _ _ _ _ hletters hnever (weight_snoc_le hempty hd c)
    · -- the source reads what the other skips
      have hlit := hne (Nat.zero_ne_add_one b)
      obtain ⟨nstr₁, vec₁, m_error₁, a, hread, hle, halpha⟩ :=
        source_step nstr vec m_error c hbrace.2
      rw [hread]
      exact hgo a b _ _ _ _ _ _ halpha (fun h => absurd h hlit) (hd.trans hle)
    · -- the source skips a letter that the other appends
      rw [List.take_succ_cons, List.forall_mem_cons] at ha
      have hc : c ≠ '%' := by
        rintro rfl
        exact absurd ha.1 (by decide)
      have hlit := hne (Nat.add_one_ne_zero a)
      rw [read_literal hc]
      rw [weight_of_ne hlit, ← weight_snoc nstr' c] at hd
      exact hgo a 0 _ _ _ _ _ _ ha.2 (fun h => absurd h (by simp)) hd
    · rw [List.take_succ_cons, List.forall_mem_cons] at ha
      refine hgo a b _ _ _ _ _ _ ha.2 (fun h => ?_) hd
      obtain ⟨hnil, hab⟩ := hsync h
      exact ⟨hnil, Nat.succ.inj hab⟩

/-! ## A run of `%` -/

/-- The source appends all but the last. -/
theorem read_run (nstr : List Char) (vec : List Part) (m_error : Bool) (n : ℕ) (cs : List Char) :
    read 0 nstr vec m_error 0 ('%' :: (List.replicate n '%' ++ cs)) =
      read 0 (nstr ++ List.replicate n '%') vec m_error 0 ('%' :: cs) := by
  induction n generalizing nstr with
  | zero => rw [List.replicate_zero, List.nil_append, List.append_nil]
  | succ n ih =>
    rw [List.replicate_succ, List.cons_append, read_pair, ih, List.append_assoc]
    rfl

/-- The other reading appends half of them, so fewer than there are. -/
theorem escaped_run (nstr : List Char) (vec : List Part) (m_error : Bool) (cs : List Char) : ∀ n : ℕ,
    ∃ j ≤ n, (0 < n → j < n) ∧
      (read 1 nstr vec m_error 0 (List.replicate n '%' ++ cs) =
          read 1 (nstr ++ List.replicate j '%') vec m_error 0 cs ∨
        read 1 nstr vec m_error 0 (List.replicate n '%' ++ cs) =
          read 1 (nstr ++ List.replicate j '%') vec m_error 0 ('%' :: cs))
  | 0 => ⟨0, le_rfl, fun h => h, .inl (by rw [List.replicate_zero, List.append_nil]; rfl)⟩
  | 1 =>
    ⟨0, Nat.zero_le 1, fun _ => Nat.one_pos, .inr (by rw [List.replicate_zero, List.append_nil]; rfl)⟩
  | n + 2 => by
    obtain ⟨j, hle, -, hread⟩ := escaped_run (nstr ++ ['%']) vec m_error cs n
    have hstep : read 1 nstr vec m_error 0 (List.replicate (n + 2) '%' ++ cs) =
        read 1 (nstr ++ ['%']) vec m_error 0 (List.replicate n '%' ++ cs) := by
      rw [List.replicate_succ, List.replicate_succ, List.cons_append, List.cons_append, read_pair]
      rfl
    have hsnoc : nstr ++ ['%'] ++ List.replicate j '%' = nstr ++ List.replicate (j + 1) '%' := by
      rw [List.append_assoc]
      rfl
    rw [hsnoc] at hread
    rw [hstep]
    exact ⟨j + 1, by omega, fun _ => by omega, hread⟩

/-- What comes after the `%` that a text starts with. -/
theorem run_split (cs : List Char) :
    ∃ n rest, cs = List.replicate n '%' ++ rest ∧ rest.head? ≠ some '%' := by
  induction cs with
  | nil => exact ⟨0, [], rfl, by simp⟩
  | cons c cs ih =>
    by_cases hc : c = '%'
    · obtain ⟨n, rest, rfl, hrest⟩ := ih
      exact ⟨n + 1, rest, by rw [hc]; rfl, hrest⟩
    · exact ⟨0, c :: cs, rfl, by simpa using hc⟩

/-- A directive that is not closed has no closing brace after it at all. -/
theorem scanStr_none (h : scanStr [] cs = none) : '\x7d' ∉ cs := by
  obtain ⟨letters, rest, rfl, hletters, hcase⟩ := scanStr_cases cs
  have hnot : '\x7d' ∉ letters := fun hmem => absurd (hletters _ hmem) (by decide)
  rcases hcase with ⟨-, hscan⟩ | ⟨fmt, after, -, -, hscan⟩ | ⟨more, rfl, hmore, -⟩
  · rw [hscan] at h
    cases h
  · rw [hscan] at h
    cases h
  · simpa [hnot] using hmore

/-! ## The items -/

/-- The first literals agree if the items do. -/
theorem startsWith_eq {text text' : List Char} {parts parts' : List Part}
    (htext : '%' ∈ text) (htext' : '%' ∈ text') (h : StartsWith text parts)
    (h' : StartsWith text' parts')
    (heq : parts.map Part.itemOrError = parts'.map Part.itemOrError) : text = text' := by
  have hne : ∀ {text : List Char}, '%' ∈ text →
      Part.itemOrError (.text (String.ofList text)) ≠ patternError.itemOrError := by
    intro text htext hitem
    have hstr : String.ofList text = "<<pattern_error>>" := by
      simpa [Part.itemOrError, patternError] using hitem
    have hlist := congrArg String.toList hstr
    rw [String.toList_ofList] at hlist
    rw [hlist] at htext
    exact absurd htext (by decide)
  obtain ⟨n, rest, rfl⟩ := h
  obtain ⟨n', rest', rfl⟩ := h'
  induction n generalizing n' with
  | zero =>
    cases n' with
    | zero =>
      have hstr : String.ofList text = String.ofList text' := by
        simpa [Part.itemOrError] using (List.cons.inj heq).1
      simpa using congrArg String.toList hstr
    | succ n' => exact absurd (List.cons.inj heq).1 (hne htext)
  | succ n ih =>
    cases n' with
    | zero => exact absurd (List.cons.inj heq).1.symm (hne htext')
    | succ n' => exact ih n' (List.cons.inj heq).2

/-- **At a pair the source and the other reading part**, whatever comes after it. -/
theorem pair_differs (nstr : List Char) (vec : List Part) (m_error : Bool) (cs : List Char) :
    (read 0 nstr vec m_error 0 ('%' :: '%' :: cs)).1.map Part.itemOrError ≠
      (read 1 nstr vec m_error 0 ('%' :: '%' :: cs)).1.map Part.itemOrError := by
  obtain ⟨n, rest, rfl, hrest⟩ := run_split cs
  have hone : ∀ cs, read 1 (nstr ++ ['%']) vec m_error 1 ('%' :: cs) =
      read 1 (nstr ++ ['%']) vec m_error 0 cs := fun _ => rfl
  have hn : nstr ++ ['%'] ≠ [] := by simp
  have hlast : '%' ∈ nstr ++ ['%'] := by simp
  rw [read_pair, read_pair, hone, read_run]
  intro heq
  rcases Nat.eq_zero_or_pos n with rfl | hpos
  · -- the text after the pair is taken for a directive
    rw [List.replicate_zero, List.nil_append, List.append_nil] at heq
    cases hscan : scanStr [] rest with
    | some found =>
      obtain ⟨part, len⟩ := found
      obtain ⟨more, hmore⟩ := continues_directive 0 vec m_error hn hrest hscan
      obtain ⟨text, htext, parts, hparts, hstarts⟩ := read_text_head 1 vec m_error hn hrest
      rw [hmore, hparts, List.map_append, List.map_append, List.append_cancel_left_eq] at heq
      have hsame := startsWith_eq hlast (List.mem_append_left _ hlast) ⟨0, _, rfl⟩ hstarts heq
      obtain rfl : text = [] := by simpa using hsame
      obtain rfl : rest = [] := List.head?_eq_none_iff.1 htext.symm
      have hflush : parts = flush (nstr ++ ['%']) := (List.append_cancel_left hparts).symm
      have hlength := congrArg List.length heq
      simp [hflush, flush] at hlength
    | none =>
      rw [read_open hrest hscan] at heq
      have hle := length_le rest (scanStr_none hscan) 0 0 1 (nstr ++ ['%']) (nstr ++ ['%'])
        (vec ++ [patternError]) vec true m_error (by simp) (fun h => absurd h hn)
        (by rw [weight_open])
      have hlength := congrArg List.length heq
      rw [List.length_map, List.length_map] at hlength
      unfold patternError at hle
      omega
  · -- the source has appended more `%`
    obtain ⟨text, -, parts, hparts, hstarts⟩ := read_text_directive 0 vec m_error
      (by simp : nstr ++ ['%'] ++ List.replicate n '%' ≠ []) hrest
    obtain ⟨j, -, hlt, hread⟩ := escaped_run (nstr ++ ['%']) vec m_error rest n
    have hnj : nstr ++ ['%'] ++ List.replicate j '%' ≠ [] := by simp
    obtain ⟨text', htext', parts', hparts', hstarts'⟩ : ∃ text, text.head? ≠ some '%' ∧
        Continues (nstr ++ ['%'] ++ List.replicate j '%') text vec
          (read 1 (nstr ++ ['%']) vec m_error 0 (List.replicate n '%' ++ rest)).1 := by
      rcases hread with hread | hread <;> rw [hread]
      · obtain ⟨text', htext', h⟩ := read_text_head 1 vec m_error hnj hrest
        exact ⟨text', by rwa [htext'], h⟩
      · exact read_text_directive 1 vec m_error hnj hrest
    rw [hparts, hparts', List.map_append, List.map_append, List.append_cancel_left_eq] at heq
    have hsame := startsWith_eq (by simp) (by simp) hstarts hstarts' heq
    obtain ⟨k, rfl⟩ : ∃ k, n = j + (k + 1) := ⟨n - j - 1, by have := hlt hpos; omega⟩
    rw [List.replicate_add] at hsame
    simp only [List.append_assoc, List.append_cancel_left_eq] at hsame
    rw [← hsame] at htext'
    exact htext' rfl

/-- **The escape.** `init` reads a pattern as if each `%%` were consumed and stood for one `%`, if
and only if the pattern has none outside of a format. -/
theorem escape_iff (pattern : String) :
    init pattern = escaped pattern ↔ hasPair 0 pattern.toList = false := by
  have hfirst := first_pair pattern.toList [] [] false 0
  have hinit : (init pattern).m_items =
      (read 0 [] [] false 0 pattern.toList).1.map Part.itemOrError := by
    rw [← parse_eq]
    rfl
  cases hpair : hasPair 0 pattern.toList with
  | false =>
    rw [hpair] at hfirst
    have hsame : parse [] [] false 0 pattern.toList = read 1 [] [] false 0 pattern.toList := by
      rw [parse_eq]
      exact (hfirst 1).symm
    unfold init escaped
    rw [hsame]
    simp
  | true =>
    rw [hpair] at hfirst
    obtain ⟨nstr, vec, m_error, rest, hread⟩ := hfirst
    simp only [reduceCtorEq, iff_false]
    intro heq
    have hitems : (init pattern).m_items = (escaped pattern).m_items := by rw [heq]
    rw [hinit, hread 0] at hitems
    refine pair_differs nstr vec m_error rest (hitems.trans ?_)
    rw [← hread 1]
    rfl

/-- A percentage: the second `%` is taken for a directive, which is unknown. -/
theorem percent_unknown :
    ¬ (∀ pattern : String, init pattern = escaped pattern) ∧
      (init "100%%").m_error = true ∧ (escaped "100%%").m_error = false ∧
      (escaped "100%%").m_items = [.StringFormatItem "100%"] := by
  have herror : (init "100%%").m_error = true := by decide
  have hescaped : (escaped "100%%").m_error = false := by decide
  refine ⟨fun h => ?_, herror, hescaped, by decide⟩
  rw [h, hescaped] at herror
  cases herror

end LogFormatter

end Coroutine
