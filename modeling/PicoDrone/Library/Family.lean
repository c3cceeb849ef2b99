import PicoDrone.Library.Machine

/-!
# Families of machines

A growing list of copies of one machine: a label of the family adds a member or takes a step
of one member. What a step of a member keeps, a run of the family keeps for every member
(`family_run_along`); what exactly the steps meeting a side condition keep holds throughout a
run exactly as long as they meet it (`family_always_iff_along`).
-/

set_option autoImplicit false

namespace PicoDrone.Library

/-- A new member, or a step of the member at a place. -/
inductive FamilyEvent (α ι : Type*) where
  | spawn (a : α)
  | act (member : ℕ) (l : ι)

namespace Machine

variable {α σ ι : Type*}

/-- The runs of a family; `new` makes a member, or none. -/
def family (M : Machine σ ι) (new : α → Option σ) : Machine (List σ) (FamilyEvent α ι) where
  step s
    | .spawn a => some (s ++ (new a).toList)
    | .act k l => s[k]?.bind fun c => (M.step c l).map fun t => s.set k t

/-- A condition on the steps of the members. -/
def OnMembers (P : σ → ι → Prop) (s : List σ) : FamilyEvent α ι → Prop
  | .spawn _ => True
  | .act k l => ∀ c, s[k]? = some c → P c l

variable {M : Machine σ ι} {new : α → Option σ} {I : σ → Prop} {P : σ → ι → Prop}

/-- INTERNAL: a new member does not touch the others. -/
theorem family_spawn (hnew : ∀ a c, new a = some c → I c) {s t : List σ} {a : α}
    (hs : ∀ c ∈ s, I c) (hstep : (M.family new).step s (.spawn a) = some t) : ∀ c ∈ t, I c := by
  obtain rfl := Option.some.inj hstep
  intro c hc
  obtain hc | hc := List.mem_append.mp hc
  · exact hs c hc
  · exact hnew a c (by simpa using hc)

/-- INTERNAL: what a step of a member does to the list. -/
theorem family_act {s t : List σ} {k : ℕ} {l : ι}
    (hstep : (M.family new).step s (.act k l) = some t) :
    ∃ c d, s[k]? = some c ∧ M.step c l = some d ∧ s.set k d = t := by
  simp only [family, Option.bind_eq_some_iff, Option.map_eq_some_iff] at hstep
  obtain ⟨c, hc, d, hd, hset⟩ := hstep
  exact ⟨c, d, hc, hd, hset⟩

/-- INTERNAL: a step of a member keeps what all members have exactly if the member has it
afterwards. -/
theorem forall_mem_set {s : List σ} {k : ℕ} {c d : σ} (hc : s[k]? = some c)
    (hs : ∀ c ∈ s, I c) : (∀ e ∈ s.set k d, I e) ↔ I d := by
  obtain ⟨hk, -⟩ := List.getElem?_eq_some_iff.mp hc
  constructor
  · intro h
    exact h d (List.mem_set hk d)
  · intro hd e he
    obtain he | rfl := List.mem_or_eq_of_mem_set he
    · exact hs e he
    · exact hd

/-- INTERNAL: what a new member has, and every step of a member that meets `P` keeps, every
member has after a run whose steps all meet `P`. -/
theorem family_run_along (hnew : ∀ a c, new a = some c → I c)
    (hstep : ∀ c l d, I c → P c l → M.step c l = some d → I d) {s t : List σ}
    {ls : List (FamilyEvent α ι)} (hs : ∀ c ∈ s, I c)
    (hP : (M.family new).Along (OnMembers P) s ls) (hrun : (M.family new).run s ls = some t) :
    ∀ c ∈ t, I c := by
  apply (M.family new).run_invariant_along (fun s => ∀ c ∈ s, I c) (OnMembers P) _ hs hP hrun
  intro s l t hs hP ht
  cases l with
  | spawn a => exact family_spawn hnew hs ht
  | act k l =>
    obtain ⟨c, d, hc, hd, rfl⟩ := family_act ht
    have hI := hs c (List.mem_of_getElem? hc)
    exact (forall_mem_set hc hs).mpr (hstep c l d hI (hP c hc) hd)

/-- INTERNAL: if a step of a member keeps `I` exactly where `P` holds, the members of a family
have `I` exactly as long as the steps meet `P`. -/
theorem family_always_iff_along (hnew : ∀ a c, new a = some c → I c)
    (hstep : ∀ c l d, I c → M.step c l = some d → (I d ↔ P c l)) {s t : List σ}
    {ls : List (FamilyEvent α ι)} (hs : ∀ c ∈ s, I c) (hrun : (M.family new).run s ls = some t) :
    (M.family new).Always (fun s => ∀ c ∈ s, I c) s ls ↔
      (M.family new).Along (OnMembers P) s ls := by
  apply (M.family new).always_iff_along (fun _ => True) _ (OnMembers P)
    (fun _ _ _ _ _ => trivial) _ trivial hs hrun
  intro s l t _ hs ht
  cases l with
  | spawn a => exact ⟨fun _ => trivial, fun _ => family_spawn hnew hs ht⟩
  | act k l =>
    obtain ⟨c, d, hc, hd, rfl⟩ := family_act ht
    rw [forall_mem_set hc hs, hstep c l d (hs c (List.mem_of_getElem? hc)) hd]
    constructor
    · intro h c' hc'
      obtain rfl := Option.some.inj (hc.symm.trans hc')
      exact h
    · exact fun h => h c hc

end Machine

end PicoDrone.Library
