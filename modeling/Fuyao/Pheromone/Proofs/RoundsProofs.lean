import Fuyao.Pheromone.Proofs.TriggersProofs

/-!
# Proofs: groups, time windows and redundant objects

The trigger of dynamic groups waits for the control keys and then hands over the data keys that have come
before them. The trigger by time hands over what has come since the last time. The redundant trigger
takes the first objects of every round and drops the others.
-/

namespace Pheromone

open Cpp Batching Trigger

variable {f name : Bytes}

/-! ## Dynamic groups -/

/-- The last object has a control key, and all control keys are there. -/
def controlPolicy (control : UnorderedSet Bytes) : Policy Unit (Bytes × Bytes) :=
  ⟨fun _ l => (l.getLast?.any fun x => groupOf x.2 = controlGroupPrefix) &&
      control.elems.all fun c => groupOf c = controlGroupPrefix && (l.map Prod.snd).contains c,
    fun _ _ => ()⟩

theorem controlPolicy_full_iff {control : UnorderedSet Bytes} {l : List (Bytes × Bytes)}
    {x : Bytes × Bytes} :
    (controlPolicy control).full () (l ++ [x]) = true ↔ groupOf x.2 = controlGroupPrefix ∧
      ∀ c ∈ control, groupOf c = controlGroupPrefix ∧ c ∈ (l ++ [x]).map Prod.snd := by
  simp only [controlPolicy, List.getLast?_append, List.getLast?_singleton, Option.some_or,
    Option.any_some, Bool.and_eq_true, decide_eq_true_eq, List.all_eq_true, List.contains_iff_mem]
  exact Iff.rfl

/-- The control and data keys among the objects are known. -/
structure Grouped (f : Bytes) (control : UnorderedSet Bytes) (t : DynamicGroupTrigger)
    (l : List (Bytes × Bytes)) : Prop where
  function : t.target_function_ = f
  control_eq : t.control_group_ = control
  mem_cur : ∀ k, k ∈ t.cur_control_keys_ ↔
    k ∈ control ∧ groupOf k = controlGroupPrefix ∧ k ∈ l.map Prod.snd
  mem_data : ∀ g k, (∃ keys, t.data_group_keys_map_.lookup g = some keys ∧ k ∈ keys) ↔
    g ≠ controlGroupPrefix ∧ groupOf k = g ∧ k ∈ l.map Prod.snd
  data_ne : ∀ g keys, t.data_group_keys_map_.lookup g = some keys → ∃ k, k ∈ keys

namespace Grouped

variable {control : UnorderedSet Bytes} {t : DynamicGroupTrigger} {l : List (Bytes × Bytes)}

theorem empty (hf : t.target_function_ = f) (hc : t.control_group_ = control)
    (hcur : t.cur_control_keys_ = ∅) (hdata : t.data_group_keys_map_ = ∅) : Grouped f control t [] :=
  ⟨hf, hc, by simp [hcur], by simp [hdata], by simp [hdata]⟩

/-- The keys of a group are those that its entry has. -/
theorem mem_keys_iff (h : Grouped f control t l) {g : Bytes} {keys : UnorderedSet Bytes}
    (hg : t.data_group_keys_map_.lookup g = some keys) (k : Bytes) :
    k ∈ keys ↔ groupOf k = g ∧ k ∈ l.map Prod.snd := by
  have hne : g ≠ controlGroupPrefix := by
    obtain ⟨k', hk'⟩ := h.data_ne g keys hg
    exact ((h.mem_data g k').mp ⟨keys, hg, hk'⟩).1
  constructor
  · intro hk
    exact ((h.mem_data g k).mp ⟨keys, hg, hk⟩).2
  · intro hk
    obtain ⟨keys', hg', hk'⟩ := (h.mem_data g k).mpr ⟨hne, hk⟩
    rw [hg] at hg'
    rwa [Option.some.inj hg']

/-- What is handed over when the control keys are complete. -/
theorem handsOver (h : Grouped f control t l) (x : Bytes × Bytes)
    (hx : groupOf x.2 = controlGroupPrefix) :
    HandsOverGroups f (l ++ [x]) (t.data_group_keys_map_.entries.map fun group_keys =>
      ⟨t.target_function_, group_keys.2.elems.map fun key => (x.1, key)⟩) := by
  have hdata {g k : Bytes} (hg : g ≠ controlGroupPrefix) (hk : groupOf k = g) :
      k ∈ (l ++ [x]).map Prod.snd ↔ k ∈ l.map Prod.snd := by
    have hkx : k ≠ x.2 := by
      rintro rfl
      exact hg (hk.symm.trans hx)
    simp [hkx]
  refine ⟨t.data_group_keys_map_.keys, t.data_group_keys_map_.keys_nodup, ?_, ?_⟩
  · intro g
    rw [← AList.mem_keys, ← AList.lookup_isSome, Option.isSome_iff_exists]
    constructor
    · rintro ⟨keys, hkeys⟩
      obtain ⟨k, hk⟩ := h.data_ne g keys hkeys
      obtain ⟨hg, hkg, hmem⟩ := (h.mem_data g k).mp ⟨keys, hkeys, hk⟩
      exact ⟨hg, k, (hdata hg hkg).mpr hmem, hkg⟩
    · rintro ⟨hg, k, hmem, hkg⟩
      obtain ⟨keys, hkeys, -⟩ := (h.mem_data g k).mpr ⟨hg, hkg, (hdata hg hkg).mp hmem⟩
      exact ⟨keys, hkeys⟩
  · rw [AList.keys, List.keys, List.forall₂_map_left_iff, List.forall₂_map_right_iff, List.forall₂_same]
    rintro ⟨g, keys⟩ hentry
    have hlookup : t.data_group_keys_map_.lookup g = some keys := AList.mem_lookup_iff.mpr hentry
    refine ⟨h.function, keys.nodup.map fun _ _ => congrArg Prod.snd, fun session k => ?_⟩
    have hne : g ≠ controlGroupPrefix := by
      obtain ⟨k', hk'⟩ := h.data_ne g keys hlookup
      exact ((h.mem_data g k').mp ⟨keys, hlookup, hk'⟩).1
    have hmem := h.mem_keys_iff hlookup k
    rw [and_congr_right fun hk => (hdata hne hk).symm] at hmem
    have hlast : (l ++ [x]).getLast?.map Prod.fst = some session ↔ x.1 = session := by simp
    rw [hlast, ← hmem]
    constructor
    · intro hpair
      obtain ⟨key, hkey, heq⟩ := List.mem_map.mp hpair
      obtain ⟨rfl, rfl⟩ := Prod.mk.inj heq
      exact ⟨rfl, hkey⟩
    · rintro ⟨rfl, hk⟩
      exact List.mem_map_of_mem hk

/-- The control keys among the objects when another one has come. -/
theorem mem_controlKeys (h : Grouped f control t l) {x : Bytes × Bytes}
    (hx : groupOf x.2 = controlGroupPrefix) (k : Bytes) :
    k ∈ t.controlKeys x.2 ↔
      k ∈ control ∧ groupOf k = controlGroupPrefix ∧ k ∈ (l ++ [x]).map Prod.snd := by
  rw [DynamicGroupTrigger.controlKeys, h.control_eq, List.map_append, List.mem_append,
    List.map_singleton, List.mem_singleton]
  split
  case isTrue hmem =>
    rw [UnorderedSet.mem_insert, h.mem_cur]
    constructor
    · rintro (rfl | ⟨hk, hg, hl⟩)
      · exact ⟨hmem, hx, .inr rfl⟩
      · exact ⟨hk, hg, .inl hl⟩
    · rintro ⟨hk, hg, hl | rfl⟩
      · exact .inr ⟨hk, hg, hl⟩
      · exact .inl rfl
  case isFalse hmem =>
    rw [h.mem_cur]
    constructor
    · rintro ⟨hk, hg, hl⟩
      exact ⟨hk, hg, .inl hl⟩
    · rintro ⟨hk, hg, hl | rfl⟩
      · exact ⟨hk, hg, hl⟩
      · exact absurd hk hmem

theorem full_iff_length_eq (h : Grouped f control t l) {x : Bytes × Bytes}
    (hx : groupOf x.2 = controlGroupPrefix) :
    (controlPolicy control).full () (l ++ [x]) = true ↔
      (t.controlKeys x.2).elems.length = control.elems.length := by
  have hcur := h.mem_controlKeys hx
  rw [controlPolicy_full_iff, length_eq_iff_of_subset fun k hk => ((hcur k).mp hk).1]
  constructor
  · intro hfull c hc
    exact (hcur c).mpr ⟨hc, hfull.2 c hc⟩
  · intro hall
    exact ⟨hx, fun c hc => ((hcur c).mp (hall c hc)).2⟩

/-- An object with a control key arrives. -/
theorem control_arrival (h : Grouped f control t l) (bucket_key : BucketKey) {x : Bytes × Bytes}
    (hbk : x = (bucket_key.session_, bucket_key.key_)) (hx : groupOf x.2 = controlGroupPrefix) :
    ((controlPolicy control).full () (l ++ [x]) = true ∧
        HandsOverGroups f (l ++ [x]) (t.actionForNewObject bucket_key).1 ∧
        Grouped f control (t.actionForNewObject bucket_key).2 []) ∨
      ((controlPolicy control).full () (l ++ [x]) = false ∧ (t.actionForNewObject bucket_key).1 = [] ∧
        Grouped f control (t.actionForNewObject bucket_key).2 (l ++ [x])) := by
  have hfull := h.full_iff_length_eq hx
  have hcur := h.mem_controlKeys hx
  have hdata := h.mem_data
  subst hbk
  simp only [DynamicGroupTrigger.actionForNewObject, if_pos hx, h.control_eq]
  split
  case isTrue hlen =>
    exact .inl ⟨hfull.mpr hlen, h.handsOver _ hx, empty h.function rfl rfl rfl⟩
  case isFalse hlen =>
    refine .inr ⟨Bool.eq_false_iff.mpr (mt hfull.mp hlen), rfl, h.function, rfl, hcur, ?_, h.data_ne⟩
    intro g k
    rw [h.mem_data g k, List.map_append, List.mem_append, List.map_singleton, List.mem_singleton]
    constructor
    · rintro ⟨hg, hk, hl⟩
      exact ⟨hg, hk, .inl hl⟩
    · rintro ⟨hg, hk, hl | rfl⟩
      · exact ⟨hg, hk, hl⟩
      · exact absurd (hk.symm.trans hx) hg

/-- An object with a data key arrives. -/
theorem data_arrival (h : Grouped f control t l) (bucket_key : BucketKey) {x : Bytes × Bytes}
    (hbk : x = (bucket_key.session_, bucket_key.key_)) (hx : groupOf x.2 ≠ controlGroupPrefix) :
    (controlPolicy control).full () (l ++ [x]) = false ∧ (t.actionForNewObject bucket_key).1 = [] ∧
      Grouped f control (t.actionForNewObject bucket_key).2 (l ++ [x]) := by
  have hfull : (controlPolicy control).full () (l ++ [x]) = false :=
    Bool.eq_false_iff.mpr fun hfull => hx (controlPolicy_full_iff.mp hfull).1
  have hmem (k : Bytes) : k ∈ (l ++ [x]).map Prod.snd ↔ k ∈ l.map Prod.snd ∨ k = x.2 := by simp
  have hkeys (k : Bytes) : k ∈ (t.data_group_keys_map_.lookup (groupOf x.2)).getD ∅ ↔
      groupOf k = groupOf x.2 ∧ k ∈ l.map Prod.snd := by
    have hdata := h.mem_data (groupOf x.2) k
    cases hlookup : t.data_group_keys_map_.lookup (groupOf x.2) with
    | none => simpa [hlookup, hx] using hdata
    | some keys => simpa [hlookup, hx] using hdata
  subst hbk
  simp only [DynamicGroupTrigger.actionForNewObject, if_neg hx]
  refine ⟨hfull, trivial, h.function, h.control_eq, ?_, ?_, ?_⟩
  · intro k
    rw [h.mem_cur, hmem]
    constructor
    · rintro ⟨hk, hg, hl⟩
      exact ⟨hk, hg, .inl hl⟩
    · rintro ⟨hk, hg, hl | rfl⟩
      · exact ⟨hk, hg, hl⟩
      · exact absurd hg hx
  · intro g k
    by_cases hg : g = groupOf bucket_key.key_
    · subst hg
      simp only [AList.lookup_insert, Option.some.injEq, exists_eq_left', UnorderedSet.mem_insert, hkeys,
        hmem]
      constructor
      · rintro (rfl | ⟨hk, hl⟩)
        · exact ⟨hx, rfl, .inr rfl⟩
        · exact ⟨hx, hk, .inl hl⟩
      · rintro ⟨-, hk, hl | rfl⟩
        · exact .inr ⟨hk, hl⟩
        · exact .inl rfl
    · rw [AList.lookup_insert_ne hg, h.mem_data, hmem]
      constructor
      · rintro ⟨hne, hk, hl⟩
        exact ⟨hne, hk, .inl hl⟩
      · rintro ⟨hne, hk, hl | rfl⟩
        · exact ⟨hne, hk, hl⟩
        · exact absurd hk.symm hg
  · intro g keys hlookup
    by_cases hg : g = groupOf bucket_key.key_
    · subst hg
      rw [AList.lookup_insert] at hlookup
      obtain rfl := Option.some.inj hlookup
      exact ⟨bucket_key.key_, UnorderedSet.mem_insert.mpr (.inl rfl)⟩
    · rw [AList.lookup_insert_ne hg] at hlookup
      exact h.data_ne g keys hlookup

end Grouped

theorem dynamicGroup_implements (f : Bytes) (control : UnorderedSet Bytes) :
    Implements step (controlPolicy control) Call.arrival (fun _ => true) (HandsOverGroups f)
      (fun t a => ∃ d, t = dynamicGroup d ∧ Grouped f control d a.2) := by
  constructor
  · rintro _ a call ⟨d, rfl, h⟩ hv
    cases call with
    | newObject => simp [Call.arrival] at hv
    | clear => simp [Call.arrival] at hv
    | notify => exact ⟨rfl, _, rfl, h⟩
    | setRerunMetadata => exact ⟨rfl, _, rfl, h⟩
  · rintro _ a call v ⟨d, rfl, h⟩ hv
    cases call with
    | newObject bucket_key now =>
      obtain rfl := Option.some.inj hv
      rw [List.filter_true]
      by_cases hx : groupOf bucket_key.key_ = controlGroupPrefix
      · rcases h.control_arrival bucket_key rfl hx with ⟨hfull, hout, h'⟩ | ⟨hfull, hout, h'⟩
        · simp only [Policy.step, hfull, if_true]
          exact ⟨⟨_, rfl, h'⟩, by simp, fun b hb => Option.some.inj hb ▸ hout⟩
        · simp only [Policy.step, hfull, Bool.false_eq_true, if_false]
          exact ⟨⟨_, rfl, h'⟩, fun _ => hout, by simp⟩
      · obtain ⟨hfull, hout, h'⟩ := h.data_arrival bucket_key rfl hx
        simp only [Policy.step, hfull, Bool.false_eq_true, if_false]
        exact ⟨⟨_, rfl, h'⟩, fun _ => hout, by simp⟩
    | clear session =>
      obtain rfl := Option.some.inj hv
      exact ⟨⟨_, rfl, .empty h.function h.control_eq rfl rfl⟩, fun _ => rfl, by simp [Policy.step]⟩
    | notify => simp [Call.arrival] at hv
    | setRerunMetadata => simp [Call.arrival] at hv

theorem controlIncomplete_of_neverFull {control : UnorderedSet Bytes} {l : List (Bytes × Bytes)}
    (h : (controlPolicy control).NeverFull () l) : ControlIncomplete control l := by
  rintro earlier y later rfl hy
  have hnever := h (earlier ++ [y]) (by simp) ⟨later, by simp⟩
  have hnot := mt controlPolicy_full_iff.mpr (Bool.eq_false_iff.mp hnever)
  by_contra hall
  push Not at hall
  exact hnot ⟨hy, hall⟩

/-- Each time the last control key comes in, the data keys since the last time, or since the last call of
`clear`, are handed over by groups; nothing is handed over otherwise. -/
theorem groups_exact (f name : Bytes) (control : UnorderedSet Bytes) (calls : List Call) :
    ∃ (cuts : List (List (List (Bytes × Bytes)) × List (Bytes × Bytes)))
      (rounds : List (List TriggerAction)),
      Event.parts (calls.filterMap Call.arrival) = cuts.map (fun cut => cut.1.flatten ++ cut.2) ∧
      (∀ cut ∈ cuts, ControlIncomplete control cut.2 ∧ ∀ b ∈ cut.1, ∃ objects x, b = objects ++ [x] ∧
        ControlIncomplete control objects ∧ groupOf x.2 = controlGroupPrefix ∧
        ∀ c ∈ control, groupOf c = controlGroupPrefix ∧ c ∈ b.map Prod.snd) ∧
      List.Forall₂ (HandsOverGroups f) (cuts.flatMap Prod.fst) rounds ∧
      (Trigger.run (dynamicGroup { target_function_ := f, trigger_name_ := name, control_group_ := control })
        calls).1 = rounds.flatten := by
  obtain ⟨cuts, rounds, ⟨hparts, hfollows⟩, hall, hrun⟩ :=
    (dynamicGroup_implements f control).exists_cuts (m := ())
      (s := dynamicGroup { target_function_ := f, trigger_name_ := name, control_group_ := control })
      ⟨_, rfl, .empty rfl rfl rfl rfl⟩ calls
  rw [List.filter_true] at hrun
  refine ⟨cuts, rounds, hparts, fun cut hcut => ?_, hall, hrun⟩
  obtain ⟨hjust, _, hnever⟩ := hfollows.of_mem cut hcut
  refine ⟨controlIncomplete_of_neverFull hnever, fun b hb => ?_⟩
  obtain ⟨_, h⟩ := hjust b hb
  have hconcat := List.dropLast_append_getLast h.1
  have hfull := h.2.1
  rw [← hconcat, controlPolicy_full_iff] at hfull
  exact ⟨b.dropLast, b.getLast h.1, hconcat.symm, controlIncomplete_of_neverFull h.neverFull_dropLast,
    hfull.1, hconcat ▸ hfull.2⟩

/-! ## By time -/

/-- The window has passed when the last object comes. -/
def timePolicy (window : ℕ) : Policy ℤ (ℤ × Bytes × Bytes) :=
  ⟨fun last l => l.getLast?.any fun x => window ≤ millisecondsBetween last x.1,
    fun last l => (l.getLast?.map Prod.fst).getD last⟩

theorem timePolicy_full_iff {window : ℕ} {last : ℤ} {l : List (ℤ × Bytes × Bytes)}
    {x : ℤ × Bytes × Bytes} :
    (timePolicy window).full last (l ++ [x]) = true ↔ window ≤ millisecondsBetween last x.1 := by
  simp [timePolicy]

theorem timePolicy_neverFull {window : ℕ} {last : ℤ} {l : List (ℤ × Bytes × Bytes)}
    (h : (timePolicy window).NeverFull last l) : ∀ y ∈ l, millisecondsBetween last y.1 < window := by
  intro y hy
  obtain ⟨earlier, later, rfl⟩ := List.append_of_mem hy
  have hnever := h (earlier ++ [y]) (by simp) ⟨later, by simp⟩
  exact Int.not_le.mp (mt timePolicy_full_iff.mpr (Bool.eq_false_iff.mp hnever))

theorem onTime_of_linked {window : ℕ} {last : ℤ} {batches : List (List (ℤ × Bytes × Bytes))}
    (h : (timePolicy window).Linked last batches) : OnTime window last batches := by
  induction batches generalizing last with
  | nil => exact trivial
  | cons b batches ih =>
    obtain ⟨hjust, hlinked⟩ := h
    have hconcat := List.dropLast_append_getLast hjust.1
    have hfull := hjust.2.1
    rw [← hconcat, timePolicy_full_iff] at hfull
    have hnext : (timePolicy window).next last b = (b.getLast hjust.1).1 := by
      simp [timePolicy, List.getLast?_eq_some_getLast hjust.1]
    exact ⟨b.dropLast, b.getLast hjust.1, hconcat.symm, timePolicy_neverFull hjust.neverFull_dropLast,
      hfull, ih (hnext ▸ hlinked)⟩

theorem timely_of_follows {window : ℕ} {last : ℤ}
    {cuts : List (List (List (ℤ × Bytes × Bytes)) × List (ℤ × Bytes × Bytes))}
    (h : (timePolicy window).Follows last cuts) : Timely window last cuts := by
  induction cuts generalizing last with
  | nil => exact trivial
  | cons cut cuts ih =>
    have hleft : ∀ y ∈ cut.2, millisecondsBetween (lastStamp last cut.1) y.1 < window :=
      timePolicy_neverFull h.2.1
    exact ⟨onTime_of_linked h.1, hleft, ih h.2.2⟩

theorem byTime_implements (f : Bytes) (window : UInt32) :
    Implements step (timePolicy window.toNat) Call.timedArrival (fun _ => true)
      (fun b actions => actions = [⟨f, b.map Prod.snd⟩])
      (fun t a => ∃ b, t = byTime b ∧ b.target_function_ = f ∧ b.time_window_ = window ∧
        b.buffer_ = a.2.map Prod.snd ∧ b.last_trigger_stamp_ = a.1) := by
  constructor
  · rintro _ a call ⟨b, rfl, h⟩ hv
    cases call with
    | newObject => simp [Call.timedArrival] at hv
    | clear => simp [Call.timedArrival] at hv
    | notify => exact ⟨rfl, _, rfl, h⟩
    | setRerunMetadata => exact ⟨rfl, _, rfl, h⟩
  · rintro _ a call v ⟨b, rfl, hf, hw, hb, hl⟩ hv
    cases call with
    | newObject bucket_key now =>
      obtain rfl := Option.some.inj hv
      simp only [step, actionForNewObject, ByTimeTrigger.actionForNewObject, Policy.step,
        timePolicy_full_iff, hw, hl, ge_iff_le]
      split <;> simp [hf, hb, timePolicy]
    | clear session =>
      obtain rfl := Option.some.inj hv
      exact ⟨⟨_, rfl, hf, hw, rfl, hl⟩, fun _ => rfl, by simp [Policy.step]⟩
    | notify => simp [Call.timedArrival] at hv
    | setRerunMetadata => simp [Call.timedArrival] at hv

/-- The objects since the last batch, or since the last call of `clear`, are handed over when the first
object comes after the window has passed, however the clock moves. -/
theorem windows_exact (f name : Bytes) (window : UInt32) (start : ℤ) (calls : List Call) :
    ∃ cuts : List (List (List (ℤ × Bytes × Bytes)) × List (ℤ × Bytes × Bytes)),
      Event.parts (calls.filterMap Call.timedArrival) = cuts.map (fun cut => cut.1.flatten ++ cut.2) ∧
      Timely window.toNat start cuts ∧
      (Trigger.run (byTime ⟨f, name, window, [], start⟩) calls).1 =
        (cuts.flatMap Prod.fst).map fun b => ⟨f, b.map Prod.snd⟩ := by
  obtain ⟨cuts, ⟨hparts, hfollows⟩, hrun⟩ :=
    (byTime_implements f window).exists_cuts_map (m := start)
      (s := byTime ⟨f, name, window, [], start⟩) ⟨_, rfl, rfl, rfl, rfl, rfl⟩ calls
  rw [List.filter_true] at hrun
  exact ⟨cuts, hparts, timely_of_follows hfollows, hrun⟩

/-! ## Redundant -/

namespace RedundantTrigger

theorem toNat_add_one {count : UInt32} (h : count.toNat + 1 < 2 ^ 32) :
    (count + 1).toNat = count.toNat + 1 := by
  rw [UInt32.toNat_add]
  exact Nat.mod_eq_of_lt h

/-- What a new object does, by its place in the round. -/
theorem actionForNewObject_cases (t : RedundantTrigger) (bucket_key : BucketKey)
    (hfit : t.count_.toNat + 1 < 2 ^ 32) :
    (t.count_.toNat + 1 < t.k_.toNat ∧ t.actionForNewObject bucket_key = ([], { t with
        count_ := t.count_ + 1, buffer_ := t.buffer_ ++ [(bucket_key.session_, bucket_key.key_)] })) ∨
    (t.count_.toNat + 1 = t.k_.toNat ∧ t.actionForNewObject bucket_key =
        ([⟨t.target_function_, t.buffer_ ++ [(bucket_key.session_, bucket_key.key_)]⟩],
          { t with count_ := t.count_ + 1, buffer_ := [] })) ∨
    (t.k_.toNat ≤ t.count_.toNat ∧ roundLength t.k_ t.n_ ≤ t.count_.toNat + 1 ∧
        t.actionForNewObject bucket_key = ([], { t with count_ := 0 })) ∨
    (t.k_.toNat ≤ t.count_.toNat ∧ t.count_.toNat + 1 < roundLength t.k_ t.n_ ∧
        t.actionForNewObject bucket_key = ([], { t with count_ := t.count_ + 1 })) := by
  have hsucc := toNat_add_one hfit
  simp only [actionForNewObject, roundLength, UInt32.le_iff_toNat_le, ← UInt32.toNat_inj, ge_iff_le, hsucc]
  split
  · split
    · exact .inr (.inl ⟨by assumption, rfl⟩)
    · exact .inl ⟨by omega, rfl⟩
  · split
    · exact .inr (.inr (.inl ⟨by omega, by omega, rfl⟩))
    · exact .inr (.inr (.inr ⟨by omega, by omega, rfl⟩))

/-- The trigger is in the middle of a round. -/
structure InRound (f : Bytes) (k n : UInt32) (t : RedundantTrigger) (round : List (Bytes × Bytes)) :
    Prop where
  function : t.target_function_ = f
  k_eq : t.k_ = k
  n_eq : t.n_ = n
  count : t.count_.toNat = round.length
  buffer : t.buffer_ = if round.length < k.toNat then round else []
  unfinished : round.length < roundLength k n

variable {k n : UInt32}

theorem roundLength_lt (hk : k.toNat + 1 < 2 ^ 32) : roundLength k n < 2 ^ 32 :=
  Nat.max_lt.mpr ⟨n.toNat_lt, hk⟩

theorem InRound.start (f name : Bytes) (k n : UInt32) : InRound f k n ⟨f, name, k, n, 0, []⟩ [] :=
  ⟨rfl, rfl, rfl, rfl, by simp, Nat.lt_of_lt_of_le (Nat.succ_pos _) (Nat.le_max_right _ _)⟩

theorem firstOfRound_eq_nil {k : ℕ} {round : List (Bytes × Bytes)} (h : round.length < k) :
    firstOfRound f k round = [] := if_neg fun hk => Nat.not_le.mpr h hk.2

/-- A round that has just begun hands over nothing. -/
theorem firstOfRound_nil (k : ℕ) : firstOfRound f k [] = [] :=
  if_neg fun hk => Nat.not_le.mpr hk.1 hk.2

/-- Objects that come later than the first `k` do not matter. -/
theorem firstOfRound_append {k : ℕ} {round : List (Bytes × Bytes)} (h : k ≤ round.length)
    (more : List (Bytes × Bytes)) : firstOfRound f k (round ++ more) = firstOfRound f k round := by
  have hlong : k ≤ (round ++ more).length := by
    rw [List.length_append]
    omega
  simp only [firstOfRound, h, hlong, and_true, List.take_append_of_le_length h]

/-- One more object: the actions are those of the longer round, without those of the shorter one, and the
round goes on or is over. -/
theorem InRound.newObject (hk : k.toNat + 1 < 2 ^ 32) {t : RedundantTrigger}
    {round : List (Bytes × Bytes)} (h : InRound f k n t round) (bucket_key : BucketKey)
    {round' : List (Bytes × Bytes)}
    (hround' : round' = round ++ [(bucket_key.session_, bucket_key.key_)]) :
    firstOfRound f k.toNat round ++ (t.actionForNewObject bucket_key).1 = firstOfRound f k.toNat round' ∧
      (InRound f k n (t.actionForNewObject bucket_key).2 round' ∨
        round'.length = roundLength k n ∧ InRound f k n (t.actionForNewObject bucket_key).2 []) := by
  have hlen : round'.length = round.length + 1 := by simp [hround']
  have hunfinished := h.unfinished
  have hbound := roundLength_lt (n := n) hk
  have hle : k.toNat + 1 ≤ roundLength k n := Nat.le_max_right _ _
  have hfit : t.count_.toNat + 1 < 2 ^ 32 := by
    rw [h.count]
    omega
  have hsucc : (t.count_ + 1).toNat = round'.length := by rw [toNat_add_one hfit, hlen, h.count]
  have hcases := t.actionForNewObject_cases bucket_key hfit
  rw [h.k_eq, h.n_eq, h.count, h.buffer, h.function] at hcases
  rcases hcases with ⟨hc, heq⟩ | ⟨hc, heq⟩ | ⟨hc, hr, heq⟩ | ⟨hc, hr, heq⟩
  · have hshort : round.length < k.toNat := by omega
    rw [heq, firstOfRound_eq_nil hshort, firstOfRound_eq_nil (by omega), if_pos hshort, ← hround']
    exact ⟨rfl, .inl ⟨rfl, rfl, rfl, hsucc, (if_pos (by omega)).symm, by omega⟩⟩
  · have hshort : round.length < k.toNat := by omega
    rw [heq, firstOfRound_eq_nil hshort, if_pos hshort, ← hround']
    refine ⟨?_, .inl ⟨rfl, rfl, rfl, hsucc, (if_neg (by omega)).symm, by omega⟩⟩
    rw [firstOfRound, if_pos (by omega), List.take_of_length_le (by omega)]
    rfl
  · rw [heq, hround', firstOfRound_append hc, List.append_nil, ← hround', if_neg (Nat.not_lt.mpr hc)]
    exact ⟨rfl, .inr ⟨by omega, rfl, rfl, rfl, rfl, by simp, Nat.lt_of_le_of_lt (Nat.zero_le _) hunfinished⟩⟩
  · rw [heq, hround', firstOfRound_append hc, List.append_nil, ← hround', if_neg (Nat.not_lt.mpr hc)]
    exact ⟨rfl, .inl ⟨rfl, rfl, rfl, hsucc, (if_neg (by omega)).symm, by omega⟩⟩

/-- The calls go on with the round; none of them is `clear`. -/
theorem InRound.exists_rounds (hk : k.toNat + 1 < 2 ^ 32) {calls : List Call}
    (hcalls : ∀ call ∈ calls, call.isClear = false) {t : RedundantTrigger} {round : List (Bytes × Bytes)}
    (h : InRound f k n t round) :
    ∃ (rounds : List (List (Bytes × Bytes))) (last : List (Bytes × Bytes)),
      round ++ Call.objects calls = rounds.flatten ++ last ∧ (∀ r ∈ rounds, r.length = roundLength k n) ∧
      last.length < roundLength k n ∧
      firstOfRound f k.toNat round ++ (Trigger.run (redundant t) calls).1 =
        (rounds ++ [last]).flatMap (firstOfRound f k.toNat) := by
  induction calls generalizing t round with
  | nil => exact ⟨[], round, by simp [Call.objects], by simp, h.unfinished, by simp [Trigger.run]⟩
  | cons call calls ih =>
    obtain ⟨hcall, hrest⟩ := List.forall_mem_cons.mp hcalls
    cases call with
    | newObject bucket_key now =>
      have hobjects : round ++ Call.objects (.newObject bucket_key now :: calls) =
          (round ++ [(bucket_key.session_, bucket_key.key_)]) ++ Call.objects calls := by
        simp [Call.objects]
      have hrun : (Trigger.run (redundant t) (.newObject bucket_key now :: calls)).1 =
          (t.actionForNewObject bucket_key).1 ++
            (Trigger.run (redundant (t.actionForNewObject bucket_key).2) calls).1 := rfl
      obtain ⟨hfirst, h' | ⟨hlen, h'⟩⟩ := h.newObject hk bucket_key rfl
      · rw [hobjects, hrun, ← List.append_assoc, hfirst]
        exact ih hrest h'
      · obtain ⟨rounds, last, hcut, hrounds, hlast, hacts⟩ := ih hrest h'
        rw [firstOfRound_nil, List.nil_append] at hacts
        rw [List.nil_append] at hcut
        rw [hobjects, hrun, ← List.append_assoc, hfirst, hcut, hacts]
        refine ⟨(round ++ [(bucket_key.session_, bucket_key.key_)]) :: rounds, last, by simp, ?_, hlast,
          by simp⟩
        exact List.forall_mem_cons.mpr ⟨hlen, hrounds⟩
    | notify => exact ih hrest h
    | setRerunMetadata => exact ih hrest h
    | clear => exact absurd hcall (by simp [Call.isClear])

/-- Either the buffer has as many objects as have been counted, or it is empty and the round has had its
objects; `bound` is what the counter may come to. -/
structure Counted (f : Bytes) (k n : UInt32) (bound : ℕ) (t : RedundantTrigger) : Prop where
  function : t.target_function_ = f
  k_eq : t.k_ = k
  n_eq : t.n_ = n
  buffer : t.count_.toNat < k.toNat ∧ t.buffer_.length = t.count_.toNat ∨
    k.toNat ≤ t.count_.toNat ∧ t.buffer_ = []
  count_le : t.count_.toNat ≤ bound

/-- The action hands over `k` objects that have come one after another between two calls of `clear`. -/
def Contiguous (f : Bytes) (k : ℕ) (events : List (Event (Bytes × Bytes))) (action : TriggerAction) :
    Prop :=
  action.function_ = f ∧ action.session_keys_.length = k ∧
    ∃ part ∈ Event.parts events, action.session_keys_ <:+: part

theorem Contiguous.items_append {k : ℕ} {events : List (Event (Bytes × Bytes))} {action : TriggerAction}
    (h : Contiguous f k events action) (items : List (Bytes × Bytes)) :
    Contiguous f k (items.map .item ++ events) action := by
  obtain ⟨hf, hlen, part, hpart, hinfix⟩ := h
  obtain ⟨part', hpart', hsuffix⟩ := Event.exists_part_of_mem items hpart
  exact ⟨hf, hlen, part', hpart', hinfix.trans hsuffix.isInfix⟩

/-- The objects that come first are the beginning of a part. -/
theorem contiguous_of_items (items : List (Bytes × Bytes)) (events : List (Event (Bytes × Bytes))) :
    Contiguous f items.length (items.map .item ++ events) ⟨f, items⟩ := by
  refine ⟨rfl, rfl, ?_⟩
  rw [Event.parts_items_append]
  cases h : Event.parts events with
  | nil => exact absurd h (Event.parts_ne_nil events)
  | cons first rest => exact ⟨items ++ first, List.mem_cons_self, (List.prefix_append _ _).isInfix⟩

/-- A new object goes into the buffer, or completes it, or is dropped while the buffer is empty. -/
theorem Counted.newObject {bound : ℕ} (hbound : roundLength k n ≤ bound) (hfit : bound + 1 < 2 ^ 32)
    {t : RedundantTrigger} (h : Counted f k n bound t) (bucket_key : BucketKey)
    {buffer : List (Bytes × Bytes)} (hbuffer : buffer = t.buffer_ ++ [(bucket_key.session_, bucket_key.key_)]) :
    Counted f k n bound (t.actionForNewObject bucket_key).2 ∧
      ((t.actionForNewObject bucket_key).1 = [] ∧ (t.actionForNewObject bucket_key).2.buffer_ = buffer ∨
        (t.actionForNewObject bucket_key).1 = [⟨f, buffer⟩] ∧ buffer.length = k.toNat ∧
          (t.actionForNewObject bucket_key).2.buffer_ = [] ∨
        (t.actionForNewObject bucket_key).1 = [] ∧ (t.actionForNewObject bucket_key).2.buffer_ = []) := by
  have hcount := h.count_le
  have hsucc : (t.count_ + 1).toNat = t.count_.toNat + 1 := toNat_add_one (by omega)
  have hle : k.toNat + 1 ≤ roundLength k n := Nat.le_max_right _ _
  have hlen : buffer.length = t.buffer_.length + 1 := by simp [hbuffer]
  have hcases := t.actionForNewObject_cases bucket_key (by omega)
  rw [h.k_eq, h.n_eq, h.function, ← hbuffer] at hcases
  rcases hcases with ⟨hc, heq⟩ | ⟨hc, heq⟩ | ⟨hc, hr, heq⟩ | ⟨hc, hr, heq⟩ <;> rw [heq]
  · have hb : t.buffer_.length = t.count_.toNat := by
      rcases h.buffer with hb | hb <;> omega
    exact ⟨⟨rfl, rfl, rfl, .inl ⟨by simp only [hsucc]; omega, by simp only [hsucc]; omega⟩,
      by simp only [hsucc]; omega⟩, .inl ⟨rfl, rfl⟩⟩
  · have hb : t.buffer_.length = t.count_.toNat := by
      rcases h.buffer with hb | hb <;> omega
    exact ⟨⟨rfl, rfl, rfl, .inr ⟨by simp only [hsucc]; omega, rfl⟩, by simp only [hsucc]; omega⟩,
      .inr (.inl ⟨rfl, by omega, rfl⟩)⟩
  · have hb : t.buffer_ = [] := by
      rcases h.buffer with hb | hb
      · omega
      · exact hb.2
    refine ⟨⟨rfl, rfl, rfl, ?_, Nat.zero_le _⟩, .inr (.inr ⟨rfl, hb⟩)⟩
    by_cases hk : k.toNat = 0
    · exact .inr ⟨by simp [hk], hb⟩
    · exact .inl ⟨Nat.pos_of_ne_zero hk, by simp [hb]⟩
  · have hb : t.buffer_ = [] := by
      rcases h.buffer with hb | hb
      · omega
      · exact hb.2
    exact ⟨⟨rfl, rfl, rfl, .inr ⟨by simp only [hsucc]; omega, hb⟩, by simp only [hsucc]; omega⟩,
      .inr (.inr ⟨rfl, hb⟩)⟩

theorem Counted.clear {bound : ℕ} {t : RedundantTrigger} (h : Counted f k n bound t)
    (hfit : bound + k.toNat < 2 ^ 32) : Counted f k n (bound + k.toNat) t.clear := by
  have hcount := h.count_le
  have hsum : (t.count_ + t.k_).toNat = t.count_.toNat + k.toNat := by
    rw [UInt32.toNat_add, h.k_eq]
    exact Nat.mod_eq_of_lt (by omega)
  exact ⟨h.function, h.k_eq, h.n_eq, .inr ⟨by simp only [RedundantTrigger.clear, hsum]; omega, rfl⟩,
    by simp only [RedundantTrigger.clear, hsum]; omega⟩

/-- There is room in the counter for the calls of `clear` that are still to come. -/
theorem Counted.contiguous {calls : List Call} {bound : ℕ} (hbound : roundLength k n ≤ bound)
    (hfit : bound + k.toNat * calls.countP Call.isClear + 1 < 2 ^ 32) {t : RedundantTrigger}
    (h : Counted f k n bound t) :
    ∀ action ∈ (Trigger.run (redundant t) calls).1,
      Contiguous f k.toNat (t.buffer_.map .item ++ calls.filterMap Call.arrival) action := by
  induction calls generalizing t bound with
  | nil => simp [Trigger.run]
  | cons call calls ih =>
    cases call with
    | newObject bucket_key now =>
      have hevents : t.buffer_.map .item ++
            (.newObject bucket_key now :: calls : List Call).filterMap Call.arrival =
          (t.buffer_ ++ [(bucket_key.session_, bucket_key.key_)]).map .item ++
            calls.filterMap Call.arrival := by
        simp [Call.arrival]
      have hfit' : bound + k.toNat * calls.countP Call.isClear + 1 < 2 ^ 32 := by
        simpa [Call.isClear] using hfit
      change ∀ action ∈ (t.actionForNewObject bucket_key).1 ++
        (Trigger.run (redundant (t.actionForNewObject bucket_key).2) calls).1, _
      rw [hevents]
      obtain ⟨h', hcases⟩ := h.newObject hbound (by omega) bucket_key rfl
      have hrest := ih hbound hfit' h'
      rcases hcases with ⟨hact, hbuf⟩ | ⟨hact, hlen, hbuf⟩ | ⟨hact, hbuf⟩ <;> rw [hact] <;> rw [hbuf] at hrest
      · exact hrest
      · intro action haction
        rcases List.mem_cons.mp haction with rfl | haction
        · rw [← hlen]
          exact contiguous_of_items _ _
        · exact (hrest action haction).items_append _
      · intro action haction
        exact (hrest action haction).items_append _
    | notify => exact ih hbound (by simpa [Call.isClear] using hfit) h
    | setRerunMetadata => exact ih hbound (by simpa [Call.isClear] using hfit) h
    | clear session =>
      have hcount : (Call.clear session :: calls).countP Call.isClear = calls.countP Call.isClear + 1 :=
        List.countP_cons_of_pos rfl
      rw [hcount, Nat.mul_add, Nat.mul_one] at hfit
      have hrest := ih (by omega) (by omega) (h.clear (by omega))
      intro action haction
      obtain ⟨hf, hlen, part, hpart, hinfix⟩ := hrest action haction
      refine ⟨hf, hlen, part, ?_, hinfix⟩
      rw [Event.parts_items_append]
      exact List.mem_cons_of_mem _ hpart

end RedundantTrigger

/-- While nobody calls `clear`, the objects come in rounds of one length; each round hands over its first
`k` objects together, if `k` is not 0, and the rest of it is dropped. The counter has to be able to pass
`k`. -/
theorem redundant_rounds_exact (f name : Bytes) (k n : UInt32) (hk : k.toNat + 1 < 2 ^ 32)
    (calls : List Call) (hcalls : ∀ call ∈ calls, call.isClear = false) :
    ∃ (rounds : List (List (Bytes × Bytes))) (last : List (Bytes × Bytes)),
      Call.objects calls = rounds.flatten ++ last ∧
      (∀ r ∈ rounds, r.length = max n.toNat (k.toNat + 1)) ∧ last.length < max n.toNat (k.toNat + 1) ∧
      (Trigger.run (redundant { target_function_ := f, trigger_name_ := name, k_ := k, n_ := n }) calls).1 =
        (rounds ++ [last]).flatMap (firstOfRound f k.toNat) := by
  have h := (RedundantTrigger.InRound.start f name k n).exists_rounds hk hcalls
  rwa [List.nil_append, RedundantTrigger.firstOfRound_nil, List.nil_append] at h

theorem redundant_rounds_exact_sample :
    ∃ (rounds : List (List (Bytes × Bytes))) (last : List (Bytes × Bytes)),
      [([7], [97]), ([7], [98]), ([7], [99]), ([7], [100])] = rounds.flatten ++ last ∧
      (∀ r ∈ rounds, r.length = 3) ∧ last.length < 3 ∧
      (Trigger.run (redundant ⟨[1], [2], 2, 2, 0, []⟩)
          ([[97], [98], [99], [100]].map fun key => .newObject ⟨[], key, [7]⟩ 0)).1 =
        (rounds ++ [last]).flatMap (firstOfRound [1] 2) :=
  redundant_rounds_exact [1] [2] 2 2 (by decide)
    ([[97], [98], [99], [100]].map fun key => .newObject ⟨[], key, [7]⟩ 0) (by decide)

/-- Calls of `clear` cost objects, but no action: every action hands over `k` objects that have come one
directly after another since the last such call, as long as the counter does not overflow. -/
theorem redundant_actions_contiguous (f name : Bytes) (k n : UInt32) (calls : List Call)
    (hfit : max n.toNat (k.toNat + 1) + k.toNat * calls.countP Call.isClear + 1 < 2 ^ 32) :
    ∀ action ∈ (Trigger.run
        (redundant { target_function_ := f, trigger_name_ := name, k_ := k, n_ := n }) calls).1,
      action.function_ = f ∧ action.session_keys_.length = k.toNat ∧
        ∃ part ∈ Event.parts (calls.filterMap Call.arrival), action.session_keys_ <:+: part := by
  have hbuffer : 0 < k.toNat ∧ ([] : List (Bytes × Bytes)).length = 0 ∨
      k.toNat ≤ 0 ∧ ([] : List (Bytes × Bytes)) = [] := by
    rcases Nat.eq_zero_or_pos k.toNat with h | h
    · exact .inr ⟨Nat.le_of_eq h, rfl⟩
    · exact .inl ⟨h, rfl⟩
  have hstart : RedundantTrigger.Counted f k n (max n.toNat (k.toNat + 1)) ⟨f, name, k, n, 0, []⟩ :=
    ⟨rfl, rfl, rfl, hbuffer, Nat.zero_le _⟩
  exact hstart.contiguous (Nat.le_refl _) hfit

theorem redundant_actions_contiguous_sample :
    max 2 (1 + 1) + 1 * 1 + 1 < 2 ^ 32 ∧
      ∀ action ∈ (Trigger.run (redundant ⟨[1], [2], 1, 2, 0, []⟩)
          [.newObject ⟨[], [97], [7]⟩ 0, .clear [7], .newObject ⟨[], [98], [7]⟩ 0]).1,
        action.function_ = [1] ∧ action.session_keys_.length = 1 ∧
          ∃ part ∈ [[([7], [97])], [([7], [98])]], action.session_keys_ <:+: part :=
  ⟨by decide, redundant_actions_contiguous [1] [2] 1 2
    [.newObject ⟨[], [97], [7]⟩ 0, .clear [7], .newObject ⟨[], [98], [7]⟩ 0] (by decide)⟩

/-- Where the counter overflows, an action may have fewer objects. -/
example : (Trigger.run (redundant ⟨[1], [2], 2 ^ 32 - 1, 0, 0, []⟩)
    [.clear [], .clear [], .newObject ⟨[], [97], [7]⟩ 0]).1 = [⟨[1], [([7], [97])]⟩] := by decide

end Pheromone
