import Fuyao.Cpp.Containers

/-!
# Proofs: associative containers

A map is known by its lookups and a set by its elements.
-/

namespace Cpp

variable {K V W α : Type}

namespace UnorderedMap

variable [DecidableEq K]

/-- Maps that give the same answers have the same entries, up to their order. -/
theorem perm_of_lookup_eq {m m' : UnorderedMap K V} (h : ∀ k, m.lookup k = m'.lookup k) :
    m.entries.Perm m'.entries :=
  List.lookup_ext m.nodupKeys m'.nodupKeys fun k v => by
    change v ∈ m.lookup k ↔ v ∈ m'.lookup k
    rw [h k]

theorem equal_iff [BEq V] [LawfulBEq V] {m m' : UnorderedMap K V} :
    m.equal m' = true ↔ ∀ k, m.lookup k = m'.lookup k := by
  simp only [equal, Bool.and_eq_true, beq_iff_eq, List.all_eq_true]
  constructor
  · rintro ⟨hlen, hall⟩ k
    have hsub : m.entries ⊆ m'.entries := by
      rintro ⟨a, v⟩ hmem
      exact AList.mem_lookup_iff.mp (hall ⟨a, v⟩ hmem)
    have hperm : m.entries.Perm m'.entries :=
      (List.subperm_of_subset m.nodupKeys.nodup hsub).perm_of_length_le (Nat.le_of_eq hlen.symm)
    exact AList.perm_lookup hperm
  · intro h
    refine ⟨(perm_of_lookup_eq h).length_eq, ?_⟩
    rintro ⟨a, v⟩ hmem
    rw [← h a]
    exact AList.mem_lookup_iff.mpr hmem

theorem lookup_foldl_insert {l : List ((_ : K) × V)} (hl : l.NodupKeys) (f : V → W)
    (m : UnorderedMap K W) (k : K) :
    (l.foldl (fun m e => m.insert e.1 (f e.2)) m).lookup k = ((l.dlookup k).map f).or (m.lookup k) := by
  induction l generalizing m with
  | nil => rfl
  | cons e l ih =>
    rw [List.nodupKeys_cons] at hl
    rw [List.foldl_cons, ih hl.2]
    by_cases hk : e.1 = k
    · subst hk
      rw [List.dlookup_eq_none.mpr hl.1, List.dlookup_cons_eq, AList.lookup_insert]
      rfl
    · rw [List.dlookup_cons_ne _ _ (Ne.symm hk), AList.lookup_insert_ne (Ne.symm hk)]

@[simp] theorem lookup_mapValues (f : V → W) (m : UnorderedMap K V) (k : K) :
    (m.mapValues f).lookup k = (m.lookup k).map f := by
  rw [mapValues, lookup_foldl_insert m.nodupKeys, AList.lookup_empty, Option.or_none]
  rfl

@[simp] theorem mem_mapValues {f : V → W} {m : UnorderedMap K V} {k : K} : k ∈ m.mapValues f ↔ k ∈ m := by
  rw [← AList.lookup_isSome, ← AList.lookup_isSome, lookup_mapValues, Option.isSome_map]

section Total

variable {R : Type} (f : K → V → Multiset R) (m : UnorderedMap K V)

omit [DecidableEq K] in
@[simp] theorem total_empty : (∅ : UnorderedMap K V).total f = 0 := rfl

theorem total_insert (k : K) (v : V) : total f (m.insert k v) = f k v + total f (m.erase k) := by
  rw [total, AList.entries_insert, ← Multiset.cons_coe, Multiset.cons_bind]
  rfl

variable {m}

/-- The entry of a key and the others. -/
theorem entries_perm_of_lookup {k : K} {v : V} (h : m.lookup k = some v) :
    m.entries.Perm (⟨k, v⟩ :: (m.erase k).entries) := by
  have hmem : (⟨k, v⟩ : (_ : K) × V) ∈ m.entries := AList.mem_lookup_iff.mp h
  obtain ⟨v', l, l', -, heq, herase⟩ := List.exists_of_kerase (List.mem_keys_of_mem hmem)
  have hv : v' = v := by
    have hmem' : (⟨k, v'⟩ : (_ : K) × V) ∈ m.entries := heq ▸ by simp
    exact Option.some_inj.mp ((AList.mem_lookup_iff.mpr hmem').symm.trans h)
  subst hv
  change m.entries.Perm (_ :: List.kerase k m.entries)
  rw [herase, heq]
  exact List.perm_middle

theorem total_of_lookup {k : K} {v : V} (h : m.lookup k = some v) :
    total f m = f k v + total f (m.erase k) := by
  rw [total, Multiset.coe_eq_coe.mpr (entries_perm_of_lookup h), ← Multiset.cons_coe, Multiset.cons_bind]
  rfl

theorem erase_of_lookup_eq_none {k : K} (h : m.lookup k = none) : m.erase k = m :=
  AList.ext (List.kerase_of_notMem_keys (AList.lookup_eq_none.mp h))

/-- A key that the map does not have counts as if it had the value `v`, where that amounts to nothing. -/
theorem total_eq_getD {k : K} {v : V} (hv : f k v = 0) :
    total f m = f k ((m.lookup k).getD v) + total f (m.erase k) := by
  cases h : m.lookup k with
  | none => rw [Option.getD_none, hv, zero_add, erase_of_lookup_eq_none h]
  | some w => exact total_of_lookup f h

theorem mem_total {r : R} : r ∈ total f m ↔ ∃ k v, m.lookup k = some v ∧ r ∈ f k v := by
  rw [total, Multiset.mem_bind]
  constructor
  · rintro ⟨⟨k, v⟩, he, hr⟩
    exact ⟨k, v, AList.mem_lookup_iff.mpr he, hr⟩
  · rintro ⟨k, v, h, hr⟩
    exact ⟨⟨k, v⟩, AList.mem_lookup_iff.mp h, hr⟩

theorem lookup_foldl_erase {l : List ((_ : K) × V)} {m : UnorderedMap K V} {k : K} {v : V}
    (h : (l.foldl (fun m e => m.erase e.1) m).lookup k = some v) : m.lookup k = some v := by
  induction l generalizing m with
  | nil => exact h
  | cons e l ih =>
    have herase := ih h
    by_cases hk : k = e.1
    · subst hk
      rw [AList.lookup_erase] at herase
      exact absurd herase (Option.some_ne_none v).symm
    · rwa [AList.lookup_erase_ne hk] at herase

/-- Some of the entries are erased. -/
theorem total_foldl_erase {l : List ((_ : K) × V)} (hl : l.NodupKeys) {m : UnorderedMap K V}
    (h : ∀ e ∈ l, m.lookup e.1 = some e.2) :
    total f m = (l : Multiset ((_ : K) × V)).bind (fun e => f e.1 e.2) +
      total f (l.foldl (fun m e => m.erase e.1) m) := by
  induction l generalizing m with
  | nil => exact (zero_add _).symm
  | cons e l ih =>
    rw [List.nodupKeys_cons] at hl
    have htail : ∀ e' ∈ l, (m.erase e.1).lookup e'.1 = some e'.2 := by
      intro e' he'
      have hne : e'.1 ≠ e.1 := fun heq => hl.1 (heq ▸ List.mem_keys_of_mem he')
      rw [AList.lookup_erase_ne hne]
      exact h e' (List.mem_cons_of_mem _ he')
    rw [total_of_lookup f (h e List.mem_cons_self), ih hl.2 htail, ← Multiset.cons_coe,
      Multiset.cons_bind, add_assoc]
    rfl

/-- All of the entries are erased. -/
theorem total_foldl_erase_entries (m : UnorderedMap K V) :
    total f (m.entries.foldl (fun m e => m.erase e.1) m) = 0 :=
  left_eq_add.mp (total_foldl_erase f m.nodupKeys fun _ he => AList.mem_lookup_iff.mpr he)

end Total

end UnorderedMap

namespace Change

variable [DecidableEq K]

theorem lookup_apply (m : UnorderedMap K V) (c : Change K V) (k : K) :
    (c.apply m).lookup k = (c.word k).getD (m.lookup k) := by
  cases c with
  | assign k' v =>
    by_cases h : k' = k
    · subst h
      simp [apply, word]
    · simp [apply, word, h, AList.lookup_insert_ne (Ne.symm h)]
  | erase k' =>
    by_cases h : k' = k
    · subst h
      simp [apply, word]
    · simp [apply, word, h, AList.lookup_erase_ne (Ne.symm h)]
  | clear => rfl

/-- After many changes the last one that is about the key decides. -/
theorem lookup_foldl_apply (m : UnorderedMap K V) (changes : List (Change K V)) (k : K) :
    (changes.foldl apply m).lookup k = (changes.reverse.findSome? (word k)).getD (m.lookup k) := by
  induction changes generalizing m with
  | nil => rfl
  | cons c changes ih =>
    rw [List.foldl_cons, ih, lookup_apply, List.reverse_cons, List.findSome?_append]
    cases changes.reverse.findSome? (word k) with
    | none => simp
    | some v => rfl

end Change

namespace UnorderedSet

@[simp] theorem notMem_empty (x : α) : x ∉ (∅ : UnorderedSet α) := List.not_mem_nil

theorem mem_def {x : α} {s : UnorderedSet α} : x ∈ s ↔ x ∈ s.elems := Iff.rfl

variable [DecidableEq α]

@[simp] theorem mem_insert {x y : α} {s : UnorderedSet α} : x ∈ s.insert y ↔ x = y ∨ x ∈ s := by
  unfold insert
  split
  case isTrue h =>
    constructor
    · exact Or.inr
    · rintro (rfl | hx)
      · exact h
      · exact hx
  case isFalse => exact List.mem_cons

@[simp] theorem mem_insertAll {x : α} {l : List α} {s : UnorderedSet α} :
    x ∈ s.insertAll l ↔ x ∈ l ∨ x ∈ s := by
  induction l generalizing s with
  | nil => simp [insertAll]
  | cons y l ih =>
    change x ∈ (s.insert y).insertAll l ↔ _
    rw [ih, mem_insert, List.mem_cons]
    tauto

end UnorderedSet

end Cpp
