import Fuyao.Gather.Gather
import Mathlib.Tactic.Common

/-!
# Proofs: the invariant of gathering

Every action of a party keeps `State.Inv`. The counter equals the number of components that are
stored and counted, so it never runs ahead of the store, and a full counter means that the store is
complete. At most one party sees the counter become full by its own count.
-/

namespace Gather.State

variable {C κ V : Type} {comp : κ → C} {Allowed : Phase C V → Prop} {a : State C κ V} {k k' : κ}
  {n : ℕ} {p : Phase C V} {v : V}

theorem stored_of_counts (hp : p.counts = true) : p.stored = true := by
  cases p <;> simp_all [Phase.counts, Phase.stored]

theorem stored_of_isLast (hp : p.isLast = true) : p.stored = true := by
  cases p <;> simp_all [Phase.isLast, Phase.stored]

theorem counts_of_done (hp : p.done = true) (hre : p ≠ .recomposed) : p.counts = true := by
  cases p <;> simp_all [Phase.done, Phase.counts]

theorem emitted_of_isLast (hp : p.isLast = true) (hd : p.done = true) : p.emitted = true := by
  cases p <;> simp_all [Phase.isLast, Phase.done, Phase.emitted]

theorem sawAll_of_isLast (hp : p.isLast = true) : p.sawAll = true := by
  cases p <;> simp_all [Phase.isLast, Phase.sawAll]

theorem counts_iff {c : C} :
    a.counts c = true ↔ ∃ k v, a.store c = some (k, v) ∧ (a.phase k).counts = true := by
  unfold counts
  cases hs : a.store c with
  | none => simp
  | some x =>
    obtain ⟨k, v⟩ := x
    simp

/-- A complete store holds one value for each component. -/
theorem exists_values (h : ∀ c, ∃ x, a.store c = some x) :
    ∃ v : C → V, ∀ c, ∃ k', a.store c = some (k', v c) := by
  choose x hx using h
  exact ⟨fun c => (x c).2, fun c => ⟨(x c).1, hx c⟩⟩

theorem initCounter_of_some (hn : a.counter = some n) : a.initCounter = a := by
  cases a
  simp only at hn
  simp [initCounter, hn]

/-! ## Consequences of the invariant -/

section Consequences

variable [Fintype C]

theorem mem_countedSet {c : C} : c ∈ a.countedSet ↔ a.counts c = true := by
  simp [countedSet]

/-- A component is stored by one party only. -/
theorem Inv.storer_unique (h : a.Inv comp Allowed) (hk : (a.phase k).stored = true)
    (hk' : (a.phase k').stored = true) (hc : comp k = comp k') : k = k' := by
  obtain ⟨v, hv⟩ := h.stored k hk
  obtain ⟨v', hv'⟩ := h.stored k' hk'
  rw [hc, hv'] at hv
  exact (Prod.mk.inj (Option.some.inj hv)).1.symm

/-- The counter never runs ahead of the store. -/
theorem Inv.counter_le (h : a.Inv comp Allowed) (hn : a.counter = some n) :
    n ≤ a.storedSet.card := by
  rw [h.counter_eq n hn]
  refine Finset.card_le_card fun c hc => ?_
  obtain ⟨k, v, hs, -⟩ := counts_iff.mp (mem_countedSet.mp hc)
  simp [storedSet, hs]

/-- When the counter is full, every component is stored and counted. -/
theorem Inv.counts_of_full (h : a.Inv comp Allowed) (hn : a.counter = some (Fintype.card C)) (c : C) :
    a.counts c = true := by
  have huniv : a.countedSet = Finset.univ :=
    (Finset.card_eq_iff_eq_univ _).mp (h.counter_eq _ hn).symm
  exact mem_countedSet.mp (huniv ▸ Finset.mem_univ c)

/-- When the counter is full, the store determines what a party will compose. -/
theorem Inv.exists_snapshot (h : a.Inv comp Allowed) (hn : a.counter = some (Fintype.card C)) :
    ∃ v : C → V, ∀ c, ∃ k', a.store c = some (k', v c) :=
  exists_values fun c => by
    obtain ⟨k', v, hs, -⟩ := counts_iff.mp (h.counts_of_full hn c)
    exact ⟨_, hs⟩

/-- If every component is counted by a party that did its duties, the counter is full. -/
theorem Inv.full_of_counts (h : a.Inv comp Allowed) (hn : a.counter = some n)
    (hall : ∀ c, a.counts c = true) : n = Fintype.card C := by
  rw [h.counter_eq n hn, Finset.card_eq_iff_eq_univ]
  exact Finset.eq_univ_of_forall fun c => mem_countedSet.mpr (hall c)

/-- Two composed results are made of the same values. -/
theorem Inv.outputs_agree (h : a.Inv comp Allowed) {v v' : C → V} (hv : (k, v) ∈ a.outputs)
    (hv' : (k', v') ∈ a.outputs) : v = v' := by
  funext c
  obtain ⟨j, hj⟩ := h.outputs_store k v hv c
  obtain ⟨j', hj'⟩ := h.outputs_store k' v' hv' c
  rw [hj] at hj'
  exact (Prod.mk.inj (Option.some.inj hj')).2

/-- If nobody composes after reading a full counter, at most one result is composed. -/
theorem Inv.outputs_length_le (h : a.Inv comp Allowed) (hre : ¬ Allowed .recomposed) :
    a.outputs.length ≤ 1 := by
  have hlast : ∀ j ∈ a.outputs.map Prod.fst, (a.phase j).isLast = true := by
    intro j hj
    have hem := (h.outputs_iff j).mp hj
    have hal := h.allowed j
    cases hp : a.phase j <;> rw [hp] at hem hal <;> simp_all [Phase.emitted, Phase.isLast]
  rw [← List.length_map (f := Prod.fst)]
  match hm : a.outputs.map Prod.fst with
  | [] => simp
  | [_] => simp
  | j :: j' :: rest =>
    have hnd := h.outputs_nodup
    rw [hm] at hlast hnd
    have heq : j = j' := h.last_unique j j' (hlast j (by simp)) (hlast j' (by simp))
    simp [heq] at hnd

/-- If for every component some party has done its duties, a result has been composed. -/
theorem Inv.outputs_ne_nil [Nonempty C] (h : a.Inv comp Allowed)
    (hdone : ∀ c, ∃ k, comp k = c ∧ (a.phase k).done = true) : a.outputs ≠ [] := by
  -- it is enough that someone is known to have composed
  have hemitted : ∀ k, (a.phase k).emitted = true → a.outputs ≠ [] := by
    intro k hk hnil
    have := (h.outputs_iff k).mpr hk
    simp [hnil] at this
  by_cases hre : ∃ k, a.phase k = .recomposed
  · obtain ⟨k, hk⟩ := hre
    exact hemitted k (by rw [hk]; rfl)
  have hcounts : ∀ k, (a.phase k).done = true → (a.phase k).counts = true := fun k hk =>
    counts_of_done hk fun hp => hre ⟨k, hp⟩
  have hall : ∀ c, a.counts c = true := by
    intro c
    obtain ⟨k, rfl, hk⟩ := hdone c
    obtain ⟨v, hv⟩ := h.stored k (stored_of_counts (hcounts k hk))
    exact counts_iff.mpr ⟨k, v, hv, hcounts k hk⟩
  obtain ⟨n, hn⟩ : ∃ n, a.counter = some n := by
    refine Option.ne_none_iff_exists'.mp fun hn => ?_
    obtain ⟨k, -, hk⟩ := hdone (Classical.arbitrary C)
    rw [h.counter_none hn k] at hk
    cases hk
  obtain ⟨k, hk⟩ := h.last_exists (h.full_of_counts hn hall ▸ hn)
  -- the party that counted last is the one known to be done with its component
  obtain ⟨j, hj, hjdone⟩ := hdone (comp k)
  have hstored : (a.phase k).stored = true := by
    rcases hk with hk | hk
    · exact stored_of_isLast hk
    · rw [hk]; rfl
  obtain rfl := h.storer_unique (stored_of_counts (hcounts j hjdone)) hstored hj
  rcases hk with hk | hk
  · exact hemitted j (emitted_of_isLast hk hjdone)
  · rw [hk] at hjdone
    cases hjdone

/-- Before a component that is owed is counted, nobody has seen a full counter. -/
theorem Inv.not_sawAll_of_owes (h : a.Inv comp Allowed) (hk : a.phase k = .owes) (j : κ) :
    (a.phase j).sawAll = false := by
  by_contra hj
  have hfull := h.full j (by simpa using hj)
  obtain ⟨k', v, hs, hc⟩ := counts_iff.mp (h.counts_of_full hfull (comp k))
  obtain ⟨w, hw⟩ := h.stored k (by rw [hk]; rfl)
  rw [hw] at hs
  obtain ⟨rfl, -⟩ := Prod.mk.inj (Option.some.inj hs)
  rw [hk] at hc
  cases hc

theorem inv_initial [Nonempty C] (h : Allowed .idle) : (initial : State C κ V).Inv comp Allowed where
  allowed _ := h
  store_comp _ _ _ hs := by simp [initial] at hs
  stored _ hs := by simp [initial, Phase.stored] at hs
  counter_none _ _ := rfl
  counter_eq _ hn := by simp [initial] at hn
  full _ hs := by simp [initial, Phase.sawAll] at hs
  snapshot _ _ hs := by simp [initial] at hs
  last_unique _ _ hs := by simp [initial, Phase.isLast] at hs
  last_exists hn := by simp [initial] at hn
  outputs_store _ _ hs := by simp [initial] at hs
  outputs_nodup := by simp [initial]
  outputs_iff _ := by simp [initial, Phase.emitted]

/-- Creating the counter. -/
theorem Inv.initCounter [Nonempty C] (h : a.Inv comp Allowed) : a.initCounter.Inv comp Allowed := by
  cases hn : a.counter with
  | some n => rw [initCounter_of_some hn]; exact h
  | none =>
    have hidle := h.counter_none hn
    have hzero : a.countedSet = ∅ := by
      refine Finset.eq_empty_of_forall_notMem fun c hc => ?_
      obtain ⟨j, v, -, hj⟩ := counts_iff.mp (mem_countedSet.mp hc)
      rw [hidle j] at hj
      simp [Phase.counts] at hj
    have hset : a.initCounter.countedSet = a.countedSet := rfl
    exact
      { allowed := h.allowed
        store_comp := h.store_comp
        stored := h.stored
        counter_none := fun hc => by simp [State.initCounter] at hc
        counter_eq := by
          intro m hm
          rw [hset, hzero]
          simp [State.initCounter, hn] at hm
          simp [← hm]
        full := by
          intro j hj
          change (a.phase j).sawAll = true at hj
          rw [hidle j] at hj
          simp [Phase.sawAll] at hj
        snapshot := h.snapshot
        last_unique := h.last_unique
        last_exists := by
          intro hm
          simp only [State.initCounter, hn, Option.getD_none, Option.some.injEq] at hm
          exact absurd hm Fintype.card_pos.ne
        outputs_store := h.outputs_store
        outputs_nodup := h.outputs_nodup
        outputs_iff := h.outputs_iff }

end Consequences

/-! ## The actions of a party keep the invariant -/

section Actions

variable [DecidableEq κ]

/-- Which components count does not change when a party moves between phases that count alike. -/
theorem counts_setPhase (hp : p.counts = (a.phase k).counts) (c : C) :
    (a.setPhase k p).counts c = a.counts c := by
  unfold counts setPhase
  cases a.store c with
  | none => rfl
  | some x =>
    by_cases hx : x.1 = k
    · subst hx
      simp [hp]
    · simp [Function.update_of_ne hx]

/-- A party that is not done stays free to move without undoing what others did. -/
theorem done_update (hk : (a.phase k).done = false) (j : κ) (hj : (a.phase j).done = true) :
    (Function.update a.phase k p j).done = true := by
  have hjk : j ≠ k := fun e => by rw [e, hk] at hj; cases hj
  rwa [Function.update_of_ne hjk]

variable [Fintype C]

/-- A party moves to a phase that is alike as far as the store and the count go, and the outputs
become `outs`. -/
theorem Inv.move (h : a.Inv comp Allowed) (hp : Allowed p) (hcounter : a.counter ≠ none)
    (hstored : p.stored = (a.phase k).stored) (hcounts : p.counts = (a.phase k).counts)
    (hlast : p.isLast = (a.phase k).isLast) (hblind : a.phase k ≠ .blind)
    (hfull : p.sawAll = true → a.counter = some (Fintype.card C))
    (hsnap : ∀ v, p = .last v ∨ p = .again v → ∀ c, ∃ k', a.store c = some (k', v c))
    {outs : List (κ × (C → V))}
    (hos : ∀ j v, (j, v) ∈ outs → ∀ c, ∃ k', a.store c = some (k', v c))
    (hnd : (outs.map Prod.fst).Nodup)
    (hiff : ∀ j, j ∈ outs.map Prod.fst ↔ (Function.update a.phase k p j).emitted = true) :
    ({ a with phase := Function.update a.phase k p, outputs := outs } : State C κ V).Inv comp
      Allowed := by
  have hset : ({ a with phase := Function.update a.phase k p, outputs := outs } :
      State C κ V).countedSet = a.countedSet := by
    ext c
    rw [mem_countedSet, mem_countedSet]
    exact (counts_setPhase hcounts c).congr_left
  have hphase : ∀ {β : Type} (f : Phase C V → β), f p = f (a.phase k) →
      ∀ j, f (Function.update a.phase k p j) = f (a.phase j) := by
    intro β f hf j
    by_cases hj : j = k
    · subst hj; simp [hf]
    · simp [Function.update_of_ne hj]
  exact
    { allowed := (Function.forall_update_iff a.phase fun _ q => Allowed q).mpr ⟨hp, fun j _ => h.allowed j⟩
      store_comp := by
        intro c j v hs
        rw [hphase Phase.stored hstored j]
        exact h.store_comp c j v hs
      stored := fun j hj => h.stored j (by rwa [hphase Phase.stored hstored j] at hj)
      counter_none := fun hn => absurd hn hcounter
      counter_eq := fun m hm => by rw [hset]; exact h.counter_eq m hm
      full := (Function.forall_update_iff a.phase fun _ q => q.sawAll = true →
        a.counter = some (Fintype.card C)).mpr ⟨hfull, fun j _ => h.full j⟩
      snapshot := (Function.forall_update_iff a.phase fun _ q => ∀ v, q = .last v ∨ q = .again v →
        ∀ c, ∃ k', a.store c = some (k', v c)).mpr ⟨hsnap, fun j _ => h.snapshot j⟩
      last_unique := by
        intro j j' hj hj'
        rw [hphase Phase.isLast hlast] at hj hj'
        exact h.last_unique j j' hj hj'
      last_exists := by
        intro hn
        obtain ⟨j, hj⟩ := h.last_exists hn
        refine ⟨j, hj.imp (fun hj => by rwa [hphase Phase.isLast hlast]) fun hj => ?_⟩
        have hjk : j ≠ k := fun e => hblind (e ▸ hj)
        simpa [Function.update_of_ne hjk] using hj
      outputs_store := hos
      outputs_nodup := hnd
      outputs_iff := hiff }

/-- A party moves to a phase that is alike as far as the store, the count and the outputs go. -/
theorem Inv.setPhase (h : a.Inv comp Allowed) (hp : Allowed p) (hcounter : a.counter ≠ none)
    (hstored : p.stored = (a.phase k).stored) (hcounts : p.counts = (a.phase k).counts)
    (hlast : p.isLast = (a.phase k).isLast) (hem : p.emitted = (a.phase k).emitted)
    (hblind : a.phase k ≠ .blind)
    (hfull : p.sawAll = true → a.counter = some (Fintype.card C))
    (hsnap : ∀ v, p = .last v ∨ p = .again v → ∀ c, ∃ k', a.store c = some (k', v c)) :
    (a.setPhase k p).Inv comp Allowed := by
  refine h.move hp hcounter hstored hcounts hlast hblind hfull hsnap h.outputs_store h.outputs_nodup
    fun j => (h.outputs_iff j).trans ?_
  by_cases hj : j = k
  · subst hj; simp [hem]
  · simp [Function.update_of_ne hj]

/-- A party that has created or found the counter. -/
theorem Inv.enter (h : a.Inv comp Allowed) (hp : Allowed .ready) (hk : a.phase k = .idle)
    (hcounter : a.counter ≠ none) : (a.setPhase k .ready).Inv comp Allowed := by
  refine h.setPhase hp hcounter ?_ ?_ ?_ ?_ (by simp [hk]) (fun hs => by cases hs) (by simp) <;>
    rw [hk] <;> rfl

/-- A party gives up counting the component it stored. -/
theorem Inv.lose (h : a.Inv comp Allowed) (hp : Allowed .lost) (hk : a.phase k = .owes)
    (hcounter : a.counter ≠ none) : (a.setPhase k .lost).Inv comp Allowed := by
  refine h.setPhase hp hcounter ?_ ?_ ?_ ?_ (by simp [hk]) (fun hs => by cases hs) (by simp) <;>
    rw [hk] <;> rfl

/-- A party whose component was there already reads a full counter. -/
theorem Inv.readFull (h : a.Inv comp Allowed) {v : C → V} (hp : Allowed (.again v))
    (hk : a.phase k = .ready) (hcounter : a.counter = some (Fintype.card C))
    (hv : ∀ c, ∃ k', a.store c = some (k', v c)) : (a.setPhase k (.again v)).Inv comp Allowed := by
  refine h.setPhase hp (by simp [hcounter]) ?_ ?_ ?_ ?_ (by simp [hk]) (fun _ => hcounter) (by simpa using hv)
    <;> rw [hk] <;> rfl

omit [Fintype C] in
/-- What is stored stays when a party stores a component that was not. -/
theorem store_put_of_some [DecidableEq C] (hs : a.store (comp k) = none) {c : C} {x : κ × V}
    (hx : a.store c = some x) : (a.put (comp k) k v p).store c = some x := by
  have hc : c ≠ comp k := by
    rintro rfl
    rw [hs] at hx
    cases hx
  exact (Function.update_of_ne hc ..).trans hx

/-- Storing a component counts nothing. -/
theorem Inv.countedSet_put [DecidableEq C] (h : a.Inv comp Allowed) (hs : a.store (comp k) = none)
    (hp : p.counts = false) : (a.put (comp k) k v p).countedSet = a.countedSet := by
  ext c
  rw [mem_countedSet, mem_countedSet]
  unfold counts State.put
  by_cases hc : c = comp k
  · subst hc
    simp [hs, hp]
  · dsimp only
    rw [Function.update_of_ne hc]
    cases hx : a.store c with
    | none => rfl
    | some x =>
      have hxk : x.1 ≠ k := by
        rintro rfl
        exact hc (h.store_comp c x.1 x.2 hx).1.symm
      simp [Function.update_of_ne hxk]

/-- A party whose component is not stored yet stores it. -/
theorem Inv.put [DecidableEq C] (h : a.Inv comp Allowed) (hp : Allowed p) (hk : a.phase k = .ready)
    (hs : a.store (comp k) = none) (hpp : p = .owes ∨ p = .lost) :
    (a.put (comp k) k v p).Inv comp Allowed := by
  have hcounter : a.counter ≠ none := by
    intro hn
    have := h.counter_none hn k
    rw [hk] at this
    cases this
  have hstored : p.stored = true := by rcases hpp with rfl | rfl <;> rfl
  have hncounts : p.counts = false := by rcases hpp with rfl | rfl <;> rfl
  have hnlast : p.isLast = false := by rcases hpp with rfl | rfl <;> rfl
  have hnem : p.emitted = false := by rcases hpp with rfl | rfl <;> rfl
  have hnsaw : p.sawAll = false := by rcases hpp with rfl | rfl <;> rfl
  have hlast : ∀ j, (Function.update a.phase k p j).isLast = true → (a.phase j).isLast = true :=
    (Function.forall_update_iff a.phase fun j q => q.isLast = true → (a.phase j).isLast = true).mpr
      ⟨fun hj => (by rw [hnlast] at hj; cases hj), fun _ _ => id⟩
  exact
    { allowed := (Function.forall_update_iff a.phase fun _ q => Allowed q).mpr ⟨hp, fun j _ => h.allowed j⟩
      store_comp := by
        intro c j w hw
        by_cases hc : c = comp k
        · subst hc
          have hput : (a.put (comp k) k v p).store (comp k) = some (k, v) := Function.update_self ..
          rw [hput] at hw
          obtain ⟨rfl, rfl⟩ := Prod.mk.inj (Option.some.inj hw)
          exact ⟨rfl, by simp [State.put, hstored]⟩
        · obtain ⟨hj, hst⟩ := h.store_comp c j w ((Function.update_of_ne hc ..).symm.trans hw)
          have hjk : j ≠ k := by
            rintro rfl
            exact hc hj.symm
          exact ⟨hj, by simpa [State.put, Function.update_of_ne hjk] using hst⟩
      stored := (Function.forall_update_iff a.phase fun j q => q.stored = true →
          ∃ w, (a.put (comp k) k v p).store (comp j) = some (j, w)).mpr
        ⟨fun _ => ⟨v, Function.update_self ..⟩, fun j _ hj =>
          (h.stored j hj).imp fun _ => store_put_of_some hs⟩
      counter_none := fun hn => absurd hn hcounter
      counter_eq := by
        rw [h.countedSet_put hs hncounts]
        exact h.counter_eq
      full := (Function.forall_update_iff a.phase fun _ q => q.sawAll = true →
          a.counter = some (Fintype.card C)).mpr
        ⟨fun hsaw => (by rw [hnsaw] at hsaw; cases hsaw), fun j _ => h.full j⟩
      snapshot := (Function.forall_update_iff a.phase fun _ q => ∀ w, q = .last w ∨ q = .again w →
          ∀ c, ∃ j, (a.put (comp k) k v p).store c = some (j, w c)).mpr
        ⟨fun w hw => (by rcases hpp with rfl | rfl <;> simp at hw), fun j _ w hw c =>
          (h.snapshot j w hw c).imp fun _ => store_put_of_some hs⟩
      last_unique := fun j j' hj hj' => h.last_unique j j' (hlast j hj) (hlast j' hj')
      last_exists := by
        intro hn
        obtain ⟨j, hj⟩ := h.last_exists hn
        have hjk : j ≠ k := by
          rintro rfl
          rw [hk] at hj
          rcases hj with hj | hj <;> cases hj
        exact ⟨j, by simpa [State.put, Function.update_of_ne hjk] using hj⟩
      outputs_store := fun j w hw c => (h.outputs_store j w hw c).imp fun _ => store_put_of_some hs
      outputs_nodup := h.outputs_nodup
      outputs_iff := (Function.forall_update_iff a.phase fun j q =>
          j ∈ a.outputs.map Prod.fst ↔ q.emitted = true).mpr
        ⟨by rw [h.outputs_iff k, hk, hnem]; rfl, fun j _ => h.outputs_iff j⟩ }

/-- Counting adds exactly the component of the party. -/
theorem Inv.countedSet_count [DecidableEq C] (h : a.Inv comp Allowed) (hk : a.phase k = .owes)
    (hp : p.counts = true) :
    (a.count k p).countedSet = insert (comp k) a.countedSet ∧ comp k ∉ a.countedSet := by
  obtain ⟨w, hw⟩ := h.stored k (by rw [hk]; rfl)
  refine ⟨?_, ?_⟩
  · ext c
    rw [Finset.mem_insert, mem_countedSet, mem_countedSet]
    unfold counts State.count
    cases hx : a.store c with
    | none =>
      have : c ≠ comp k := fun e => by rw [e, hw] at hx; cases hx
      simp [this]
    | some x =>
      have hcomp := (h.store_comp c x.1 x.2 hx).1
      by_cases hxk : x.1 = k
      · rw [hxk] at hcomp
        simp [hxk, hp, hcomp]
      · have : c ≠ comp k := by
          intro e
          rw [e, hw] at hx
          exact hxk (by rw [← Option.some.inj hx])
        simp [Function.update_of_ne hxk, this]
  · intro hc
    obtain ⟨k', v, hs, hcnt⟩ := counts_iff.mp (mem_countedSet.mp hc)
    rw [hw] at hs
    obtain ⟨rfl, -⟩ := Prod.mk.inj (Option.some.inj hs)
    rw [hk] at hcnt
    cases hcnt

/-- When one component is missing in the count and a party owes it, the store is complete. -/
theorem Inv.exists_snapshot_of_owes [DecidableEq C] (h : a.Inv comp Allowed)
    (hk : a.phase k = .owes) (hn : a.counter = some n) (hfull : n + 1 = Fintype.card C) :
    ∃ v : C → V, ∀ c, ∃ k', a.store c = some (k', v c) := by
  obtain ⟨-, hnotin⟩ := h.countedSet_count (p := .blind) hk rfl
  have huniv : insert (comp k) a.countedSet = Finset.univ := by
    rw [← Finset.card_eq_iff_eq_univ, Finset.card_insert_of_notMem hnotin, ← h.counter_eq n hn, hfull]
  refine exists_values fun c => ?_
  rcases Finset.mem_insert.mp (huniv ▸ Finset.mem_univ c) with rfl | hc
  · obtain ⟨w, hw⟩ := h.stored k (by rw [hk]; rfl)
    exact ⟨_, hw⟩
  · obtain ⟨k', v, hs, -⟩ := counts_iff.mp (mem_countedSet.mp hc)
    exact ⟨_, hs⟩

/-- A party counts the component it owes. It sees the counter become full exactly when its component
is the last one, unless it does not see the counter at all. -/
theorem Inv.count [DecidableEq C] (h : a.Inv comp Allowed) (hp : Allowed p) (hk : a.phase k = .owes)
    (hn : a.counter = some n)
    (hpp : p = .blind ∨ (n + 1 = Fintype.card C ∧ ∃ v : C → V, p = .last v ∧
        ∀ c, ∃ k', a.store c = some (k', v c)) ∨ (n + 1 ≠ Fintype.card C ∧ p = .counted)) :
    (a.count k p).Inv comp Allowed := by
  have hcnt : p.counts = true := by
    rcases hpp with rfl | ⟨-, v, rfl, -⟩ | ⟨-, rfl⟩ <;> rfl
  have hstored : p.stored = true := stored_of_counts hcnt
  have hem : p.emitted = false := by
    rcases hpp with rfl | ⟨-, v, rfl, -⟩ | ⟨-, rfl⟩ <;> rfl
  obtain ⟨hset, hnotin⟩ := h.countedSet_count hk hcnt
  have hnosaw := h.not_sawAll_of_owes hk
  have hcounter : (a.count k p).counter = some (n + 1) := by simp [State.count, hn]
  have hlastk : ∀ j, ((a.count k p).phase j).isLast = true → j = k := by
    intro j hj
    by_contra hjk
    have hphase : (a.count k p).phase j = a.phase j := Function.update_of_ne hjk ..
    have hsaw := hnosaw j
    rw [← hphase, sawAll_of_isLast hj] at hsaw
    cases hsaw
  exact
    { allowed := (Function.forall_update_iff a.phase fun _ q => Allowed q).mpr ⟨hp, fun j _ => h.allowed j⟩
      store_comp := fun c j w hw => ⟨(h.store_comp c j w hw).1,
        (Function.forall_update_iff a.phase fun j q => ∀ w, a.store c = some (j, w) → q.stored = true).mpr
          ⟨fun _ _ => hstored, fun j _ w hw => (h.store_comp c j w hw).2⟩ j w hw⟩
      stored := (Function.forall_update_iff a.phase fun j q => q.stored = true →
          ∃ w, a.store (comp j) = some (j, w)).mpr
        ⟨fun _ => h.stored k (by rw [hk]; rfl), fun j _ => h.stored j⟩
      counter_none := fun hc => by rw [hcounter] at hc; cases hc
      counter_eq := by
        intro m hm
        rw [hcounter] at hm
        rw [hset, Finset.card_insert_of_notMem hnotin, ← h.counter_eq n hn]
        exact (Option.some.inj hm).symm
      full := by
        refine (Function.forall_update_iff a.phase fun _ q => q.sawAll = true →
          (a.count k p).counter = some (Fintype.card C)).mpr ⟨fun hsaw => ?_, fun j _ hj => ?_⟩
        · rcases hpp with rfl | ⟨hcard, v, rfl, -⟩ | ⟨-, rfl⟩
          · cases hsaw
          · rw [hcounter, hcard]
          · cases hsaw
        · rw [hnosaw j] at hj
          cases hj
      snapshot := by
        refine (Function.forall_update_iff a.phase fun _ q => ∀ w, q = .last w ∨ q = .again w →
          ∀ c, ∃ j, a.store c = some (j, w c)).mpr ⟨fun w hw => ?_, fun j _ => h.snapshot j⟩
        rcases hpp with rfl | ⟨-, v, rfl, hv⟩ | ⟨-, rfl⟩
        · simp at hw
        · obtain rfl : v = w := by simpa using hw
          exact hv
        · simp at hw
      last_unique := fun j j' hj hj' => (hlastk j hj).trans (hlastk j' hj').symm
      last_exists := by
        intro hc
        refine ⟨k, ?_⟩
        have hphase : (a.count k p).phase k = p := Function.update_self ..
        rw [hcounter] at hc
        rw [hphase]
        rcases hpp with rfl | ⟨-, v, rfl, -⟩ | ⟨hne, -⟩
        · exact Or.inr rfl
        · exact Or.inl rfl
        · exact absurd (Option.some.inj hc) hne
      outputs_store := h.outputs_store
      outputs_nodup := h.outputs_nodup
      outputs_iff := (Function.forall_update_iff a.phase fun j q =>
          j ∈ a.outputs.map Prod.fst ↔ q.emitted = true).mpr
        ⟨by rw [h.outputs_iff k, hk, hem]; rfl, fun j _ => h.outputs_iff j⟩ }

/-- A party that saw a full counter composes the result from what it found in the store. -/
theorem Inv.emit (h : a.Inv comp Allowed) (hp : Allowed p) {v : C → V}
    (hk : a.phase k = .last v ∧ p = .composed ∨ a.phase k = .again v ∧ p = .recomposed) :
    (a.emit k v p).Inv comp Allowed := by
  have hsaw : (a.phase k).sawAll = true := by rcases hk with ⟨hk, -⟩ | ⟨hk, -⟩ <;> rw [hk] <;> rfl
  have hem : p.emitted = true := by rcases hk with ⟨-, rfl⟩ | ⟨-, rfl⟩ <;> rfl
  have hnew : k ∉ a.outputs.map Prod.fst := by
    intro hmem
    have := (h.outputs_iff k).mp hmem
    rcases hk with ⟨hk, -⟩ | ⟨hk, -⟩ <;> rw [hk] at this <;> cases this
  have hv : ∀ c, ∃ k', a.store c = some (k', v c) := h.snapshot k v (hk.imp And.left And.left)
  refine h.move hp (by rw [h.full k hsaw]; simp) ?_ ?_ ?_ ?_ (fun _ => h.full k hsaw) ?_ ?_ ?_ ?_
  · rcases hk with ⟨hk, rfl⟩ | ⟨hk, rfl⟩ <;> rw [hk] <;> rfl
  · rcases hk with ⟨hk, rfl⟩ | ⟨hk, rfl⟩ <;> rw [hk] <;> rfl
  · rcases hk with ⟨hk, rfl⟩ | ⟨hk, rfl⟩ <;> rw [hk] <;> rfl
  · rcases hk with ⟨hk, -⟩ | ⟨hk, -⟩ <;> rw [hk] <;> simp
  · rcases hk with ⟨-, rfl⟩ | ⟨-, rfl⟩ <;> simp
  · intro j w hw
    rcases List.mem_append.mp hw with hw | hw
    · exact h.outputs_store j w hw
    · obtain ⟨rfl, rfl⟩ : j = k ∧ w = v := by simpa using hw
      exact hv
  · rw [List.map_append, List.nodup_append]
    exact ⟨h.outputs_nodup, by simp, fun x hx y hy => by
      obtain rfl : y = k := by simpa using hy
      exact fun e => hnew (e ▸ hx)⟩
  · intro j
    by_cases hj : j = k
    · subst hj; simp [hem]
    · simpa [Function.update_of_ne hj, hj] using h.outputs_iff j

end Actions

end Gather.State
