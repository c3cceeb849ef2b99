import PicoDrone.Library.Region

/-!
# Strings ended by NUL

A string is given by its bytes before the NUL. `strcpy` and `strncpy` write one to the
start of a region and fail where they would leave it, `snprintf` cuts it to the region;
`string` reads one back, and a NUL stored into it cuts it (`stringFrom_put_nul`). `strstr` finds
a string in another one (`strstr_eq_some_iff`), `memchr` a byte among bytes.
-/

set_option autoImplicit false

namespace PicoDrone.Library

theorem takeWhile_append_stop {α : Type*} {p : α → Bool} {b : α} (hb : p b = false)
    (text rest : List α) : (text ++ b :: rest).takeWhile p = text.takeWhile p := by
  rw [List.takeWhile_append, List.takeWhile_cons_of_neg (by simp [hb]), List.append_nil]
  split
  · rename_i hall
    exact ((List.takeWhile_prefix p).eq_of_length hall).symm
  · rfl

theorem dropWhile_append_stop {α : Type*} {p : α → Bool} {b : α} (hb : p b = false)
    (text rest : List α) : (text ++ b :: rest).dropWhile p = text.dropWhile p ++ b :: rest := by
  rw [List.dropWhile_append, List.dropWhile_cons_of_neg (by simp [hb])]
  split
  · rename_i hnone
    rw [List.isEmpty_iff.mp hnone, List.nil_append]
  · rfl

theorem takeWhile_ne_append {α : Type*} [DecidableEq α] {b : α} {text : List α} (h : b ∉ text)
    (rest : List α) : (text ++ rest).takeWhile (· ≠ b) = text ++ rest.takeWhile (· ≠ b) := by
  apply List.takeWhile_append_of_pos
  intro a ha
  exact decide_eq_true fun heq => h (heq ▸ ha)

theorem takeWhile_ne_self {α : Type*} [DecidableEq α] {b : α} {text : List α} (h : b ∉ text) :
    text.takeWhile (· ≠ b) = text := by
  have hall := takeWhile_ne_append h []
  rwa [List.append_nil, List.takeWhile_nil, List.append_nil] at hall

/-- INTERNAL: what follows a byte that a needle does not have is no part of the needle. -/
theorem prefix_append_stop {α : Type*} {needle before after : List α} {b : α}
    (hb : b ∉ needle) : needle <+: before ++ b :: after ↔ needle <+: before := by
  constructor
  · intro h
    obtain hlt | hle := Nat.lt_or_ge before.length needle.length
    · have hall : before ++ [b] <+: needle := by
        have hsplit : before ++ [b] <+: before ++ b :: after := ⟨after, by simp⟩
        refine List.prefix_of_prefix_length_le hsplit h ?_
        rw [List.length_append, List.length_singleton]
        omega
      exact absurd (hall.subset (by simp)) hb
    · exact List.prefix_of_prefix_length_le h (List.prefix_append _ _) hle
  · intro h
    exact h.trans (List.prefix_append _ _)

/-- INTERNAL: the text of bytes with a NUL put behind them. -/
theorem text_terminated (bytes : List (BitVec 8)) :
    (bytes ++ [0#8]).takeWhile (· ≠ 0#8) = bytes.takeWhile (· ≠ 0#8) :=
  takeWhile_append_stop (by decide) bytes []

/-- `isspace`: a space, or one of the five control characters from the tab on. -/
def isSpace (b : BitVec 8) : Bool := b == 0x20#8 || (0x09#8 ≤ b && b ≤ 0x0D#8)

/-- `strstr`: the rest of the second string from the first place on where the first one
begins. -/
def strstr (needle : List (BitVec 8)) : List (BitVec 8) → Option (List (BitVec 8))
  | [] => if needle = [] then some [] else none
  | b :: bs => if needle.isPrefixOf (b :: bs) then some (b :: bs) else strstr needle bs

/-- INTERNAL: what `strstr` finds is the first place. -/
theorem strstr_eq_some_iff {needle text found : List (BitVec 8)} :
    strstr needle text = some found ↔ ∃ before, text = before ++ found ∧ needle <+: found ∧
      ∀ i < before.length, ¬ needle <+: text.drop i := by
  induction text with
  | nil =>
    simp only [strstr, Option.ite_none_right_eq_some, Option.some_inj, List.nil_eq_append_iff]
    constructor
    · rintro ⟨rfl, rfl⟩
      exact ⟨[], ⟨rfl, rfl⟩, List.nil_prefix, by simp⟩
    · rintro ⟨before, ⟨rfl, rfl⟩, hinit, -⟩
      exact ⟨List.prefix_nil.mp hinit, rfl⟩
  | cons b text ih =>
    rw [strstr]
    split
    · rename_i hhere
      rw [List.isPrefixOf_iff_prefix] at hhere
      constructor
      · intro h
        obtain rfl := Option.some.inj h
        exact ⟨[], rfl, hhere, by simp⟩
      · rintro ⟨before, htext, -, hfirst⟩
        cases before with
        | nil => rw [htext, List.nil_append]
        | cons a before => exact absurd hhere (hfirst 0 (by simp))
    · rename_i hhere
      rw [List.isPrefixOf_iff_prefix] at hhere
      rw [ih]
      constructor
      · rintro ⟨before, htext, hinit, hfirst⟩
        refine ⟨b :: before, by rw [htext, List.cons_append], hinit, fun i hi => ?_⟩
        cases i with
        | zero => exact hhere
        | succ i => exact hfirst i (by simpa using hi)
      · rintro ⟨before, htext, hinit, hfirst⟩
        cases before with
        | nil => exact absurd (htext ▸ hinit) hhere
        | cons a before =>
          refine ⟨before, (List.cons.inj htext).2, hinit, fun i hi => ?_⟩
          exact hfirst (i + 1) (by simpa using hi)

/-- INTERNAL: the first place in the text up to a NUL is the first place in the bytes, if no NUL
is before it. -/
theorem strstr_text_iff {needle bytes found : List (BitVec 8)} (hneedle : 0#8 ∉ needle) :
    strstr needle (bytes.takeWhile (· ≠ 0#8)) = some found ↔
      ∃ before rest, bytes = before ++ (needle ++ rest) ∧ 0#8 ∉ before ∧
        (∀ i < before.length, ¬ needle <+: bytes.drop i) ∧
        found = needle ++ rest.takeWhile (· ≠ 0#8) := by
  have hinit : ∀ i, (bytes.takeWhile (· ≠ 0#8)).drop i <+: bytes.drop i := by
    intro i
    obtain ⟨rest, hrest⟩ := List.takeWhile_prefix (l := bytes) (· ≠ 0#8)
    nth_rewrite 2 [← hrest]
    rw [List.drop_append]
    exact List.prefix_append _ _
  rw [strstr_eq_some_iff]
  constructor
  · rintro ⟨before, htext, ⟨tail, rfl⟩, hfirst⟩
    have hnul : 0#8 ∉ before := by
      intro hmem
      have hall := List.all_eq_true.mp (List.all_takeWhile (l := bytes) (p := (· ≠ 0#8)))
      rw [htext] at hall
      exact of_decide_eq_true (hall _ (List.mem_append_left _ hmem)) rfl
    have hsplit : bytes = before ++ (needle ++ (tail ++ bytes.dropWhile (· ≠ 0#8))) := by
      rw [← List.append_assoc needle, ← List.append_assoc before, ← htext,
        List.takeWhile_append_dropWhile]
    refine ⟨before, _, hsplit, hnul, fun i hi hmatch => hfirst i hi ?_, ?_⟩
    · refine List.prefix_of_prefix_length_le hmatch (hinit i) ?_
      rw [htext, List.length_drop, List.length_append, List.length_append]
      omega
    · rw [hsplit, takeWhile_ne_append hnul, takeWhile_ne_append hneedle] at htext
      exact (List.append_cancel_left htext).symm
  · rintro ⟨before, rest, hsplit, hnul, hfirst, rfl⟩
    refine ⟨before, ?_, List.prefix_append _ _, fun i hi hmatch => hfirst i hi ?_⟩
    · rw [hsplit, takeWhile_ne_append hnul, takeWhile_ne_append hneedle]
    · exact hmatch.trans (hinit i)

/-- `memchr`: the place of the first such byte. -/
def memchr (b : BitVec 8) (bytes : List (BitVec 8)) : Option ℕ := bytes.findIdx? (· == b)

theorem memchr_eq_some_iff {b : BitVec 8} {bytes : List (BitVec 8)} {i : ℕ} :
    memchr b bytes = some i ↔
      ∃ before after, bytes = before ++ b :: after ∧ b ∉ before ∧ before.length = i := by
  induction bytes generalizing i with
  | nil => simp [memchr]
  | cons a bytes ih =>
    rw [memchr, List.findIdx?_cons]
    by_cases ha : a = b
    · rw [if_pos (by simp [ha])]
      constructor
      · intro h
        obtain rfl := Option.some.inj h
        exact ⟨[], bytes, by rw [ha, List.nil_append], by simp, rfl⟩
      · rintro ⟨before, after, hbytes, hnot, rfl⟩
        cases before with
        | nil => rfl
        | cons c before =>
          obtain rfl := (List.cons.inj hbytes).1
          exact absurd (by rw [ha]; exact List.mem_cons_self) hnot
    · rw [if_neg (by simp [ha])]
      change (memchr b bytes).map (· + 1) = some i ↔ _
      rw [Option.map_eq_some_iff]
      constructor
      · rintro ⟨j, hj, rfl⟩
        obtain ⟨before, after, rfl, hnot, rfl⟩ := ih.mp hj
        exact ⟨a :: before, after, rfl, by simp [hnot, Ne.symm ha], rfl⟩
      · rintro ⟨before, after, hbytes, hnot, rfl⟩
        cases before with
        | nil => exact absurd (List.cons.inj hbytes).1 ha
        | cons c before =>
          obtain ⟨rfl, rfl⟩ := List.cons.inj hbytes
          exact ⟨before.length, ih.mpr ⟨before, after, rfl, fun h => hnot (by simp [h]), rfl⟩, rfl⟩

theorem memchr_eq_none_iff {b : BitVec 8} {bytes : List (BitVec 8)} :
    memchr b bytes = none ↔ b ∉ bytes := by
  rw [memchr, List.findIdx?_eq_none_iff]
  constructor
  · intro h hmem
    simpa using h b hmem
  · intro h a ha
    exact beq_false_of_ne fun heq => h (heq ▸ ha)

namespace Region

variable {n : ℕ} (r : Region n (BitVec 8))

/-- The string at the start of the region, if it ends inside of it. -/
def string : Option (List (BitVec 8)) :=
  if 0#8 ∈ r.slice 0 n then some ((r.slice 0 n).takeWhile (· ≠ 0#8)) else none

/-- The bytes from a place up to a NUL, or to the end of the region. -/
def stringFrom (pos : ℕ) : List (BitVec 8) := (r.slice pos (n - pos)).takeWhile (· ≠ 0#8)

/-- `strcpy`: the bytes and a NUL. -/
def strcpy (src : List (BitVec 8)) : Option (Region n (BitVec 8)) := r.copyIn 0 (src ++ [0#8])

/-- What `strncpy` writes: at most `count` bytes, and NULs up to `count`. -/
def strncpyBytes (src : List (BitVec 8)) (count : ℕ) : List (BitVec 8) :=
  src.take count ++ List.replicate (count - src.length) 0#8

def strncpy (src : List (BitVec 8)) (count : ℕ) : Option (Region n (BitVec 8)) :=
  r.copyIn 0 (strncpyBytes src count)

/-- `snprintf` of a text into the whole region: what fits before a NUL. -/
def snprintf (text : List (BitVec 8)) : Region n (BitVec 8) :=
  r.put 0 (text.take (n - 1) ++ [0#8])

@[simp] theorem strncpyBytes_length (src : List (BitVec 8)) (count : ℕ) :
    (strncpyBytes src count).length = count := by
  simp only [strncpyBytes, List.length_append, List.length_take, List.length_replicate]
  omega

/-- INTERNAL: a region that starts with some bytes and a NUL holds the string of the bytes. -/
theorem string_of_cells {src : List (BitVec 8)} (hlen : src.length < n) (hnul : 0#8 ∉ src)
    (hcells : ∀ i (hi : i < src.length), r.cell i = src[i]) (hend : r.cell src.length = 0#8) :
    r.string = some src := by
  have hsplit : r.slice 0 n = src ++ 0#8 :: r.slice (src.length + 1) (n - (src.length + 1)) := by
    have hsrc : r.slice 0 src.length = src := by
      apply List.ext_getElem
      · simp
      · intro i _ hi
        simp [slice, hcells i hi]
    calc r.slice 0 n = r.slice 0 (src.length + 1 + (n - (src.length + 1))) := by
          rw [Nat.add_sub_of_le hlen]
      _ = _ := by
          rw [slice_add, slice_add, hsrc, Nat.zero_add, Nat.zero_add]
          simp [slice, hend]
  have hmem : 0#8 ∈ r.slice 0 n := by
    rw [hsplit]
    simp
  rw [string, if_pos hmem, hsplit, takeWhile_ne_append hnul]
  simp

/-- INTERNAL: `strcpy` and back. -/
theorem string_strcpy {src : List (BitVec 8)} (hlen : src.length < n) (hnul : 0#8 ∉ src) :
    ∃ r' : Region n (BitVec 8), r.strcpy src = some r' ∧ r'.string = some src := by
  have hfit : 0 + (src ++ [0#8]).length ≤ n := by
    rw [List.length_append, List.length_singleton]
    omega
  refine ⟨_, copyIn_of_le hfit, string_of_cells _ hlen hnul ?_ ?_⟩
  · intro i hi
    rw [put_zero_cell r (show i < (src ++ [0#8]).length by simp; omega),
      List.getElem_append_left hi]
  · rw [put_zero_cell r (show src.length < (src ++ [0#8]).length by simp),
      List.getElem_append_right le_rfl]
    simp

/-- INTERNAL: after `strncpy` into a region that is NUL from `count` on, the region holds the
string cut to `count` bytes. -/
theorem string_strncpy {src : List (BitVec 8)} {count : ℕ} (hcount : count < n)
    (hnul : 0#8 ∉ src) (hend : r.cell count = 0#8) :
    ∃ r' : Region n (BitVec 8), r.strncpy src count = some r' ∧
      r' = r.put 0 (strncpyBytes src count) ∧ r'.string = some (src.take count) := by
  have hfit : 0 + (strncpyBytes src count).length ≤ n := by
    rw [strncpyBytes_length]
    omega
  have hlen : (src.take count).length ≤ count := List.length_take_le count src
  refine ⟨_, copyIn_of_le hfit, rfl,
    string_of_cells _ (by omega) (fun h => hnul (List.mem_of_mem_take h)) ?_ ?_⟩
  · intro i hi
    rw [put_zero_cell r (show i < (strncpyBytes src count).length by
      rw [strncpyBytes_length]; omega)]
    simp only [strncpyBytes, List.getElem_append_left hi]
  · by_cases hfull : count ≤ src.length
    · -- the string fills the bytes of the copy, and the NUL is the one behind them
      have hexact : (src.take count).length = count := List.length_take_of_le hfull
      rw [hexact, put_cell_of_outside _ (by simp), hend]
    · have hshort : (src.take count).length = src.length := by
        rw [List.length_take]
        omega
      rw [hshort, put_zero_cell r (show src.length < (strncpyBytes src count).length by
        rw [strncpyBytes_length]; omega)]
      simp only [strncpyBytes]
      rw [List.getElem_append_right (by omega)]
      simp

/-! ## Ends of strings -/

/-- INTERNAL: a string ends inside of a region whose last cell is NUL. -/
theorem string_of_last (hn : 0 < n) (hlast : r.cell (n - 1) = 0#8) :
    r.string = some (r.stringFrom 0) := by
  have hmem : 0#8 ∈ r.slice 0 n := by
    rw [slice, List.mem_map]
    refine ⟨n - 1, List.mem_range.mpr (by omega), ?_⟩
    rw [Nat.zero_add, hlast]
  rw [string, if_pos hmem, stringFrom, Nat.sub_zero]

/-- INTERNAL: the string of a region has room for its NUL and contains none. -/
theorem string_bounds {text : List (BitVec 8)} (h : r.string = some text) :
    text.length < n ∧ 0#8 ∉ text := by
  have hbytes : ∀ b ∈ (r.slice 0 n).takeWhile (· ≠ 0#8), b ≠ 0#8 := by
    intro b hb
    simpa using List.all_eq_true.mp List.all_takeWhile b hb
  unfold string at h
  split at h
  · rename_i hmem
    obtain rfl := Option.some.inj h
    refine ⟨?_, fun hnul => hbytes _ hnul rfl⟩
    have hle := (List.takeWhile_prefix (l := r.slice 0 n) (· ≠ 0#8)).length_le
    rw [slice_length] at hle
    refine Nat.lt_of_le_of_ne hle fun heq => ?_
    -- a string as long as the region would leave no place for the NUL
    have hall : (r.slice 0 n).takeWhile (· ≠ 0#8) = r.slice 0 n :=
      (List.takeWhile_prefix _).eq_of_length (by rw [heq, slice_length])
    rw [← hall] at hmem
    exact hbytes _ hmem rfl
  · cases h

/-- INTERNAL: the first cell tells whether the string is empty. -/
theorem cell_zero_ne_iff {text : List (BitVec 8)} (h : r.string = some text) :
    r.cell 0 ≠ 0#8 ↔ text ≠ [] := by
  have hpos : 0 < n := Nat.zero_lt_of_lt (r.string_bounds h).1
  have hsplit : r.slice 0 n = r.cell 0 :: r.slice 1 (n - 1) := by
    calc r.slice 0 n = r.slice 0 (1 + (n - 1)) := by rw [Nat.add_sub_of_le hpos]
      _ = _ := slice_add r 0 1 (n - 1)
  unfold string at h
  split at h
  · obtain rfl := Option.some.inj h
    rw [hsplit, List.takeWhile_cons]
    by_cases hzero : r.cell 0 = 0#8
    · simp [hzero]
    · simp [hzero]
  · cases h

/-- INTERNAL: a copy to the start that leaves out the last cell. -/
theorem put_last {xs : List (BitVec 8)} (hlen : xs.length ≤ n - 1)
    (hlast : r.cell (n - 1) = 0#8) : (r.put 0 xs).cell (n - 1) = 0#8 := by
  rw [put_cell_of_outside r (Or.inr (by omega)), hlast]

/-- INTERNAL: `snprintf` ends its string inside of the region. -/
theorem snprintf_last (text : List (BitVec 8)) (hlast : r.cell (n - 1) = 0#8) :
    (r.snprintf text).cell (n - 1) = 0#8 := by
  unfold snprintf
  by_cases hfull : n - 1 ≤ text.length
  · -- the text fills the region, and the NUL is its last cell
    have hlen : (text.take (n - 1)).length = n - 1 := List.length_take_of_le hfull
    rw [put_zero_cell r (by rw [List.length_append, hlen]; simp),
      List.getElem_append_right hlen.le]
    simp
  · apply put_last r _ hlast
    rw [List.length_append, List.length_take, List.length_singleton]
    omega

/-! ## Strings cut by a NUL -/

theorem takeWhile_drop {α : Type*} (p : α → Bool) {xs : List α} {j : ℕ}
    (hj : j ≤ (xs.takeWhile p).length) : (xs.drop j).takeWhile p = (xs.takeWhile p).drop j := by
  induction xs generalizing j with
  | nil => simp
  | cons x xs ih =>
    cases j with
    | zero => simp
    | succ j =>
      by_cases hx : p x
      · simp only [List.takeWhile_cons_of_pos hx, List.length_cons, List.drop_succ_cons] at hj ⊢
        exact ih (by omega)
      · simp [List.takeWhile_cons_of_neg hx] at hj

theorem takeWhile_set_stop {α : Type*} {p : α → Bool} {b : α} (hb : p b = false) {xs : List α}
    {i : ℕ} (hi : i < (xs.takeWhile p).length) :
    (xs.set i b).takeWhile p = (xs.takeWhile p).take i := by
  induction xs generalizing i with
  | nil => simp at hi
  | cons x xs ih =>
    by_cases hx : p x
    · cases i with
      | zero => simp [hb]
      | succ i =>
        simp only [List.takeWhile_cons_of_pos hx, List.length_cons] at hi
        simp only [List.set_cons_succ, List.takeWhile_cons_of_pos hx, List.take_succ_cons,
          ih (show i < (xs.takeWhile p).length by omega)]
    · simp [List.takeWhile_cons_of_neg hx] at hi

/-- INTERNAL: what stands behind the first byte that ends a text is not part of it. -/
theorem takeWhile_set_behind {α : Type*} (p : α → Bool) (b : α) {xs : List α} {i : ℕ}
    (hi : (xs.takeWhile p).length < i) : (xs.set i b).takeWhile p = xs.takeWhile p := by
  induction xs generalizing i with
  | nil => rfl
  | cons x xs ih =>
    cases i with
    | zero => omega
    | succ i =>
      rw [List.set_cons_succ]
      by_cases hx : p x
      · simp only [List.takeWhile_cons_of_pos hx, List.length_cons] at hi ⊢
        rw [ih (by omega)]
      · simp only [List.takeWhile_cons_of_neg hx]

/-- INTERNAL: one byte stored into a slice. -/
theorem slice_put_one (pos len i : ℕ) (b : BitVec 8) :
    (r.put (pos + i) [b]).slice pos len = (r.slice pos len).set i b := by
  apply List.ext_getElem
  · simp
  · intro j hj _
    rw [slice_length] at hj
    simp only [slice, List.getElem_map, List.getElem_range, List.getElem_set]
    by_cases hij : i = j
    · subst hij
      rw [if_pos rfl]
      simp [put]
    · rw [if_neg hij, put_cell_of_outside r (by simp; omega)]

theorem slice_from {pos len j : ℕ} (hj : j ≤ len) :
    r.slice (pos + j) (len - j) = (r.slice pos len).drop j := by
  have hsplit := r.slice_add pos j (len - j)
  rw [Nat.add_sub_of_le hj] at hsplit
  rw [hsplit, List.drop_left' (by simp)]

theorem stringFrom_length_le (pos : ℕ) : (r.stringFrom pos).length ≤ n - pos := by
  have hle := (List.takeWhile_prefix (l := r.slice pos (n - pos)) (· ≠ 0#8)).length_le
  rwa [slice_length] at hle

/-- INTERNAL: the string from a place inside of a string. -/
theorem stringFrom_add {pos j : ℕ} (hj : j ≤ (r.stringFrom pos).length) :
    r.stringFrom (pos + j) = (r.stringFrom pos).drop j := by
  have hlen := r.stringFrom_length_le pos
  rw [stringFrom, Nat.sub_add_eq, r.slice_from (by omega), takeWhile_drop _ hj]
  rfl

/-- INTERNAL: a NUL stored into a string cuts it. -/
theorem stringFrom_put_nul {pos i : ℕ} (hi : i < (r.stringFrom pos).length) :
    (r.put (pos + i) [0#8]).stringFrom pos = (r.stringFrom pos).take i := by
  have hlen := r.stringFrom_length_le pos
  rw [stringFrom, r.slice_put_one, takeWhile_set_stop (by decide) hi]
  rfl

theorem stringFrom_put_behind {pos i : ℕ} (hi : (r.stringFrom pos).length < i)
    (b : BitVec 8) :
    (r.put (pos + i) [b]).stringFrom pos = r.stringFrom pos := by
  rw [stringFrom, r.slice_put_one, takeWhile_set_behind _ b hi]
  rfl

/-- INTERNAL: a byte stored before the place that a string begins at. -/
theorem stringFrom_put_before {pos i : ℕ} (hi : i < pos) (b : BitVec 8) :
    (r.put i [b]).stringFrom pos = r.stringFrom pos := by
  have hslice : (r.put i [b]).slice pos (n - pos) = r.slice pos (n - pos) :=
    slice_congr fun j _ => put_cell_of_outside r (Or.inr (by simp; omega))
  rw [stringFrom, hslice, stringFrom]

/-- INTERNAL: a text that fits is printed in full. -/
theorem slice_snprintf {text : List (BitVec 8)} (hlen : text.length ≤ n - 1) :
    (r.snprintf text).slice 0 text.length = text := by
  rw [snprintf, List.take_of_length_le hlen]
  apply List.ext_getElem
  · simp
  · intro i hi _
    rw [slice_length] at hi
    simp only [slice, List.getElem_map, List.getElem_range, Nat.zero_add]
    rw [put_zero_cell r (by simp; omega), List.getElem_append_left hi]

/-- INTERNAL: the string from a place inside of a copy to the start. -/
theorem stringFrom_put_zero {pos : ℕ} {xs : List (BitVec 8)} (hlen : xs.length ≤ n)
    (hpos : pos ≤ xs.length) : (r.put 0 xs).stringFrom pos =
      (xs.drop pos ++ r.slice xs.length (n - xs.length)).takeWhile (· ≠ 0#8) := by
  have hsplit : (r.put 0 xs).slice 0 n = xs ++ r.slice xs.length (n - xs.length) := by
    calc (r.put 0 xs).slice 0 n = (r.put 0 xs).slice 0 (xs.length + (n - xs.length)) := by
          rw [Nat.add_sub_of_le hlen]
      _ = (r.put 0 xs).slice 0 xs.length ++ (r.put 0 xs).slice xs.length (n - xs.length) := by
          rw [slice_add, Nat.zero_add]
      _ = _ := by
          rw [slice_put r rfl]
          congr 1
          exact slice_congr fun i _ => put_cell_of_outside r (Or.inr (by omega))
  have hfrom : (r.put 0 xs).slice pos (n - pos) = ((r.put 0 xs).slice 0 n).drop pos := by
    rw [← slice_from _ (hpos.trans hlen), Nat.zero_add]
  rw [stringFrom, hfrom, hsplit, List.drop_append_of_le_length hpos]

end Region

end PicoDrone.Library
