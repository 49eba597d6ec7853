import Fuyao.Batching.Batching
import Mathlib.Data.List.Forall2

/-!
# Proofs: batches

Items are neither lost nor repeated nor reordered unless they are dropped, and every batch leaves as soon
as it is full (`Policy.exists_cuts`). What a machine that implements a policy puts
out in a whole run follows from one step (`Implements.outputs_eq`).
-/

namespace Batching

variable {σ α S E O : Type*}

theorem Event.parts_ne_nil (es : List (Event α)) : Event.parts es ≠ [] := by
  induction es with
  | nil => simp [parts]
  | cons e es ih => cases e <;> simp [parts, ih]

/-- Items in front belong to the first part. -/
theorem Event.parts_items_append (items : List α) (es : List (Event α)) :
    parts (items.map .item ++ es) = (parts es).modifyHead (items ++ ·) := by
  induction items with
  | nil =>
    cases h : parts es with
    | nil => exact absurd h (parts_ne_nil es)
    | cons part rest => simp [h]
  | cons x items ih =>
    rw [List.map_cons, List.cons_append, parts, ih, List.modifyHead_modifyHead]
    rfl

/-- A part is the end of a part when items come in front. -/
theorem Event.exists_part_of_mem (items : List α) {es : List (Event α)} {part : List α}
    (h : part ∈ parts es) : ∃ part' ∈ parts (items.map .item ++ es), part <:+ part' := by
  rw [parts_items_append]
  cases hes : parts es with
  | nil => exact absurd hes (parts_ne_nil es)
  | cons first rest =>
    rw [hes] at h
    rcases List.mem_cons.mp h with rfl | h
    · exact ⟨items ++ part, List.mem_cons_self, List.suffix_append _ _⟩
    · exact ⟨part, List.mem_cons_of_mem _ h, List.suffix_refl _⟩

namespace Policy

variable {p : Policy σ α}

theorem neverFull_nil (m : σ) : p.NeverFull m [] := by
  intro l' hne hl'
  exact absurd (List.prefix_nil.mp hl') hne

theorem NeverFull.concat {m : σ} {l : List α} {x : α} (h : p.NeverFull m l)
    (hx : p.full m (l ++ [x]) = false) : p.NeverFull m (l ++ [x]) := by
  intro l' hne hl'
  rcases List.prefix_concat_iff.mp hl' with rfl | hl'
  · exact hx
  · exact h l' hne hl'

theorem NeverFull.justFull {m : σ} {l : List α} {x : α} (h : p.NeverFull m l)
    (hx : p.full m (l ++ [x]) = true) : p.JustFull m (l ++ [x]) := by
  refine ⟨by simp, hx, fun l' hne hl' hlt => ?_⟩
  rcases List.prefix_concat_iff.mp hl' with rfl | hl'
  · exact absurd rfl hlt
  · exact h l' hne hl'

theorem NeverFull.full_eq_false {m : σ} {l : List α} (h : p.NeverFull m l) (hne : l ≠ []) :
    p.full m l = false := h l hne (List.prefix_refl l)

/-- Without its last item a batch has never been full. -/
theorem JustFull.neverFull_dropLast {m : σ} {l : List α} (h : p.JustFull m l) :
    p.NeverFull m l.dropLast := by
  intro l' hne hl'
  refine h.2.2 l' hne (hl'.trans (List.dropLast_prefix l)) ?_
  rintro rfl
  have hlt : l'.dropLast.length < l'.length := by
    rw [List.length_dropLast]
    have := List.length_pos_iff.mpr hne
    omega
  exact absurd hl'.length_le (Nat.not_le.mpr hlt)

theorem Linked.justFull {m : σ} {batches : List (List α)} (h : p.Linked m batches) :
    ∀ b ∈ batches, ∃ m', p.JustFull m' b := by
  induction batches generalizing m with
  | nil => simp
  | cons b batches ih =>
    simp only [List.mem_cons, forall_eq_or_imp]
    exact ⟨⟨m, h.1⟩, ih h.2⟩

/-- Each cut by itself, whatever has been remembered before it. -/
theorem Follows.of_mem {m : σ} {cuts : List (List (List α) × List α)} (h : p.Follows m cuts) :
    ∀ cut ∈ cuts, (∀ b ∈ cut.1, ∃ m', p.JustFull m' b) ∧ ∃ m', p.NeverFull m' cut.2 := by
  induction cuts generalizing m with
  | nil => simp
  | cons cut cuts ih =>
    simp only [List.mem_cons, forall_eq_or_imp]
    exact ⟨⟨h.1.justFull, _, h.2.1⟩, ih h.2.2⟩

/-- The batches of a run are what the parts between the drops are cut into. -/
theorem exists_cuts {s : σ × List α} (h : p.NeverFull s.1 s.2) (es : List (Event α)) :
    ∃ cuts, p.Cuts s.1 (Event.parts (s.2.map .item ++ es)) cuts ∧
      (p.run s es).1 = cuts.flatMap Prod.fst := by
  induction es generalizing s with
  | nil =>
    refine ⟨[([], s.2)], ⟨?_, trivial, h, trivial⟩, rfl⟩
    rw [Event.parts_items_append]
    simp [Event.parts]
  | cons e es ih =>
    cases e with
    | item x =>
      have hparts : Event.parts (s.2.map .item ++ .item x :: es) =
          Event.parts ((s.2 ++ [x]).map .item ++ es) := by simp
      simp only [run, step]
      split
      case isTrue hx =>
        -- the batch comes in front of those of the first part
        obtain ⟨cuts, ⟨hcuts, hfollows⟩, hrun⟩ :=
          ih (s := (p.next s.1 (s.2 ++ [x]), [])) (neverFull_nil _)
        rw [List.map_nil, List.nil_append] at hcuts
        cases cuts with
        | nil => exact absurd hcuts (Event.parts_ne_nil es)
        | cons cut cuts =>
          refine ⟨((s.2 ++ [x]) :: cut.1, cut.2) :: cuts, ⟨?_, ?_⟩, ?_⟩
          · rw [hparts, Event.parts_items_append, hcuts]
            simp
          · exact ⟨⟨h.justFull hx, hfollows.1⟩, hfollows.2⟩
          · rw [hrun]
            simp
      case isFalse hx =>
        rw [hparts]
        exact ih (s := (s.1, s.2 ++ [x])) (h.concat (Bool.eq_false_iff.mpr hx))
    | drop =>
      obtain ⟨cuts, ⟨hcuts, hfollows⟩, hrun⟩ := ih (s := (s.1, [])) (neverFull_nil _)
      rw [List.map_nil, List.nil_append] at hcuts
      refine ⟨([], s.2) :: cuts, ⟨?_, trivial, h, hfollows⟩, by simpa [run, step] using hrun⟩
      rw [Event.parts_items_append, Event.parts, hcuts]
      simp

end Policy

@[simp] theorem outputs_nil (step : S → E → List O × S) (s : S) : outputs step s [] = ([], s) := rfl

@[simp] theorem outputs_cons (step : S → E → List O × S) (s : S) (e : E) (es : List E) :
    outputs step s (e :: es) =
      ((step s e).1 ++ (outputs step (step s e).2 es).1, (outputs step (step s e).2 es).2) := rfl

/-- Machines that are in step have outputs that are related one by one. -/
theorem outputs_related {step : S → E → List O × S} {R : S → S → Prop} {Q : O → O → Prop}
    (hstep : ∀ s s' e, R s s' → List.Forall₂ Q (step s e).1 (step s' e).1 ∧ R (step s e).2 (step s' e).2)
    {s s' : S} (h : R s s') (es : List E) :
    List.Forall₂ Q (outputs step s es).1 (outputs step s' es).1 ∧
      R (outputs step s es).2 (outputs step s' es).2 := by
  induction es generalizing s s' with
  | nil => exact ⟨.nil, h⟩
  | cons e es ih =>
    obtain ⟨hout, hnext⟩ := hstep s s' e h
    obtain ⟨houts, hend⟩ := ih hnext
    rw [outputs_cons, outputs_cons]
    exact ⟨List.rel_append hout houts, hend⟩

/-- What holds of every state and every output of a run, from what holds of one call. -/
theorem outputs_invariant {step : S → E → List O × S} {J : S → Prop} {Q : O → Prop}
    (hstep : ∀ s e, J s → J (step s e).2 ∧ ∀ o ∈ (step s e).1, Q o) {s : S} (hs : J s) (es : List E) :
    J (outputs step s es).2 ∧ ∀ o ∈ (outputs step s es).1, Q o := by
  induction es generalizing s with
  | nil => exact ⟨hs, by simp⟩
  | cons e es ih =>
    obtain ⟨hJ, hQ⟩ := hstep s e hs
    obtain ⟨hJ', hQ'⟩ := ih hJ
    refine ⟨hJ', ?_⟩
    intro o ho
    rw [outputs_cons] at ho
    exact (List.mem_append.mp ho).elim (hQ o) (hQ' o)

namespace Implements

variable {step : S → E → List O × S} {p : Policy σ α} {view : E → Option (Event α)} {sees : O → Bool}
  {emits : List α → List O → Prop} {R : S → σ × List α → Prop}

/-- The outputs of a run that belong to the policy are those of its batches, one batch after another. -/
theorem outputs_eq (h : Implements step p view sees emits R) {s : S} {a : σ × List α} (hR : R s a)
    (es : List E) :
    (∃ outs, List.Forall₂ emits (p.run a (es.filterMap view)).1 outs ∧
        (outputs step s es).1.filter sees = outs.flatten) ∧
      R (outputs step s es).2 (p.run a (es.filterMap view)).2 := by
  induction es generalizing s a with
  | nil => exact ⟨⟨[], .nil, rfl⟩, hR⟩
  | cons e es ih =>
    rw [outputs_cons, List.filter_append]
    cases hv : view e with
    | none =>
      obtain ⟨hout, hR'⟩ := h.skip e hR hv
      rw [List.filterMap_cons_none hv, hout, List.nil_append]
      exact ih hR'
    | some v =>
      obtain ⟨hR', hnone, hsome⟩ := h.step e v hR hv
      obtain ⟨⟨outs, hall, houts⟩, hR''⟩ := ih hR'
      rw [List.filterMap_cons_some hv]
      refine ⟨?_, hR''⟩
      cases hb : (p.step a v).1 with
      | none =>
        refine ⟨outs, ?_, by rw [hnone hb, houts, List.nil_append]⟩
        simpa [Policy.run, hb] using hall
      | some b =>
        refine ⟨_ :: outs, ?_, by rw [houts, List.flatten_cons]⟩
        simpa [Policy.run, hb] using ⟨hsome b hb, hall⟩

/-- What a machine puts out that starts with nothing held. -/
theorem exists_cuts (h : Implements step p view sees emits R) {s : S} {m : σ} (hR : R s (m, []))
    (es : List E) :
    ∃ cuts outs, p.Cuts m (Event.parts (es.filterMap view)) cuts ∧
      List.Forall₂ emits (cuts.flatMap Prod.fst) outs ∧
        (outputs step s es).1.filter sees = outs.flatten := by
  obtain ⟨⟨outs, hall, houts⟩, -⟩ := h.outputs_eq hR es
  obtain ⟨cuts, hcuts, hrun⟩ :=
    Policy.exists_cuts (s := (m, [])) (p := p) (Policy.neverFull_nil m) (es.filterMap view)
  rw [hrun] at hall
  exact ⟨cuts, outs, hcuts, hall, houts⟩

/-- The same where every batch is put out as one output. -/
theorem exists_cuts_map {g : List α → O} (h : Implements step p view sees (fun b out => out = [g b]) R)
    {s : S} {m : σ} (hR : R s (m, [])) (es : List E) :
    ∃ cuts, p.Cuts m (Event.parts (es.filterMap view)) cuts ∧
      (outputs step s es).1.filter sees = (cuts.flatMap Prod.fst).map g := by
  obtain ⟨cuts, outs, hcuts, hall, houts⟩ := h.exists_cuts hR es
  refine ⟨cuts, hcuts, houts.trans ?_⟩
  clear houts
  generalize cuts.flatMap Prod.fst = batches at hall ⊢
  induction hall with
  | nil => rfl
  | cons hout _ ih => rw [List.flatten_cons, hout, List.map_cons, ih, List.singleton_append]

end Implements

end Batching
