import Fuyao.Gather.Proofs.GatherProofs
import Fuyao.MediaService.Proofs.CompositionProofs
import Fuyao.MediaService.Session

/-!
# Proofs: the operations of `Upload` on the keys of a request

For each operation of `Upload` on a key of the request: what it may answer in the phase its caller is
in, and that memcached and the history still represent the gathering afterwards. Operations that have
to do with other keys change nothing the session looks at.
-/

namespace MediaService

open Cpp Concurrency Gather

/-! ## The history -/

section History

variable {ι : Type} {key : Bytes} {T : List (ServiceEvent ι)} {e : ServiceEvent ι}

theorem firstStored_append_singleton :
    firstStored key (T ++ [e]) = (firstStored key T).or (storedBy key e) := by
  simp [firstStored, List.findSome?_append]

theorem storedBy_of_get_eq (h : e.post.memcached.get key = e.pre.memcached.get key) :
    storedBy key e = none := by
  unfold storedBy
  split
  next key' value _ _ pre post =>
    rw [if_neg]
    rintro ⟨-, hpre, hpost⟩
    exact hpost (h.trans hpre)
  · rfl

theorem storedBy_add {i : ι} {value : Bytes} {exptime : Nat} {r : Option Bool} {w w' : World}
    (hpre : w.memcached.get key = none) (hpost : w'.memcached.get key ≠ none) :
    storedBy key (⟨i, .add key value exptime, r, w, w'⟩ : ServiceEvent ι) = some value :=
  if_pos ⟨rfl, hpre, hpost⟩

theorem readBy_get {i : ι} {res : Option (Option Bytes)} {w w' : World} :
    readBy key (⟨i, .get key, res, w, w'⟩ : ServiceEvent ι) = res :=
  if_pos rfl

theorem readBy_of_key (h : e.op.key ≠ some key) : readBy key e = none := by
  unfold readBy
  split
  next key' _ _ _ => exact if_neg fun hk => h (by rw [← hk]; rfl)
  · rfl

theorem not_missedGet_of_key (h : e.op.key ≠ some key) : ¬ MissedGet key e := by
  simp [MissedGet, readBy_of_key h]

theorem FoundGet.mono {i : ι} {T' : List (ServiceEvent ι)} (h : FoundGet i key T) (hT : T <+: T') :
    FoundGet i key T' := by
  obtain ⟨value, w, hmem⟩ := h
  exact ⟨value, w, hT.subset hmem⟩

/-- What precedes an event of a longer history: either the event is old, or it is the newest one. -/
theorem append_singleton_split {T₁ T₂ : List (ServiceEvent ι)} {e' : ServiceEvent ι}
    (h : T ++ [e'] = T₁ ++ e :: T₂) : (∃ T₂', T = T₁ ++ e :: T₂') ∨ T = T₁ ∧ e' = e := by
  rcases List.eq_nil_or_concat T₂ with rfl | ⟨T₂', e₂, rfl⟩
  · exact .inr (by simpa using List.append_inj' h rfl)
  · rw [List.concat_eq_append, ← List.cons_append, ← List.append_assoc] at h
    exact .inl ⟨T₂', (List.append_inj' h rfl).1⟩

end History

namespace Session

variable {ι κ : Type} {S : Session ι κ} {w w' : World} {T : List (ServiceEvent ι)}
  {a a' : State Component κ Review} {i : ι} {o : Op} {ch : Choice} {r : o.Res}

theorem key_ne_counter (c : Component) : S.key c ≠ keyCounter S.req_id :=
  (keyCounter_ne_keyComponent _ _ _).symm

theorem key_inj {c c' : Component} (h : S.key c = S.key c') : c = c' :=
  Component.op_injective (keyComponent_inj h).2

theorem isComposeKey_key (c : Component) : IsComposeKey S.req_id (S.key c) := .component _

theorem mayFail_of (hadm : S.adm (.run i ch)) (hex : w.exec o ch = some (r, w'))
    (hgood : S.good ⟨i, o, r, w, w'⟩) (hf : ch.fault ≠ .ok) : S.MayFail i o := by
  cases hfault : ch.fault with
  | ok => exact absurd hfault hf
  | failed => exact .inl ⟨ch, r, w, w', hadm, hex, hgood, hfault⟩
  | unreported => exact .inr ⟨ch, r, w, w', hadm, hex, hgood, hfault⟩

theorem not_emits_of_key (hS : S.Lawful) {key : Bytes} (hkey : o.key = some key) : ¬ S.Emits o := by
  intro h
  rcases hS.emits o h with ⟨f, rfl⟩ | ⟨doc, rfl⟩ <;> cases hkey

theorem not_reporting (hS : S.Lawful) (ho : ∀ q f, o ≠ .finishJob q f true) : ¬ S.Reporting o := by
  rintro ⟨e, k, rfl, hk⟩
  obtain ⟨q, f, hop⟩ := hS.reports e k hk
  exact ho q f hop

theorem not_reporting_of_key (hS : S.Lawful) {key : Bytes} (hkey : o.key = some key) :
    ¬ S.Reporting o := by
  refine not_reporting hS fun q f h => ?_
  rw [h] at hkey
  cases hkey

/-- What memcached holds under the key of a component is what was stored there first. -/
theorem Inv.first_eq_get (h : S.Inv w T a) (c : Component) :
    firstStored (S.key c) T = w.memcached.get (S.key c) := by
  rw [h.first, h.store]

theorem counter_ne_none {k : κ} (hinv : S.Inv w T a) (hk : a.phase k ≠ .idle) : ∃ n, a.counter = some n :=
  Option.ne_none_iff_exists'.mp fun hn => hk (hinv.gather.counter_none hn k)

theorem counter_le {n : ℕ} (hinv : S.Inv w T a) (hn : a.counter = some n) : n ≤ numComponents :=
  (hinv.gather.counter_le hn).trans (Finset.card_le_univ _)

/-- What an operation leaves to show: the gathering moves on, memcached follows, and a key that
appears was stored by this very operation. -/
theorem Inv.step (hS : S.Lawful) (h : S.Inv w T a) (hex : w.exec o ch = some (r, w'))
    (hem : ¬ S.Emits o)
    (hrep : ∀ k, S.Reports (⟨i, o, r, w, w'⟩ : ServiceEvent ι) k → (a'.phase k).done = true)
    (hmiss : ∀ c, ¬ MissedGet (S.key c) (⟨i, o, r, w, w'⟩ : ServiceEvent ι))
    (hg : a'.Inv S.comp S.Allowed) (hout : a'.outputs = a.outputs)
    (hdone : ∀ k, (a.phase k).done = true → (a'.phase k).done = true)
    (hcounter : w'.memcached.get (keyCounter S.req_id) = a'.counter.map fun n : ℕ => toStr n)
    (hstore : ∀ c, w'.memcached.get (S.key c) = (a'.store c).map fun x => c.encode x.2)
    (hval : ∀ c k v, a'.store c = some (k, v) → S.Val k v)
    (hnew : ∀ c, w'.memcached.get (S.key c) = w.memcached.get (S.key c) ∨
      w.memcached.get (S.key c) = none ∧
        storedBy (S.key c) (⟨i, o, r, w, w'⟩ : ServiceEvent ι) = w'.memcached.get (S.key c)) :
    S.Inv w' (T ++ [⟨i, o, r, w, w'⟩]) a' where
  gather := hg
  counter := hcounter
  store := hstore
  first c := by
    rw [firstStored_append_singleton, h.first_eq_get, ← hstore]
    rcases hnew c with heq | ⟨hnone, hby⟩
    · rw [storedBy_of_get_eq heq, heq, Option.or_none]
    · rw [hnone, hby, Option.none_or]
  val := hval
  found e he c := by
    rcases List.mem_append.mp he with he | he
    · exact h.found e he c
    · obtain rfl := List.mem_singleton.mp he
      exact hmiss c
  gets T₁ e T₂ hT he := by
    rcases append_singleton_split hT with ⟨T₂', hT⟩ | ⟨-, rfl⟩
    · exact h.gets T₁ e T₂' hT he
    · exact absurd he hem
  out := by rw [hS.out_keep _ _ _ _ _ _ _ hex hem, h.out, hout]
  reported e he k hk := by
    rcases List.mem_append.mp he with he | he
    · exact hdone k (h.reported e he k hk)
    · obtain rfl := List.mem_singleton.mp he
      exact hrep k hk

/-- An operation that touches no key of the request and delivers nothing. -/
theorem Inv.quietStep (hS : S.Lawful) (h : S.Inv w T a)
    (hkey : ∀ key, o.key = some key → ¬ IsComposeKey S.req_id key) (hem : ¬ S.Emits o)
    (hex : w.exec o ch = some (r, w'))
    (hrep : ∀ k, S.Reports (⟨i, o, r, w, w'⟩ : ServiceEvent ι) k → (a.phase k).done = true) :
    S.Inv w' (T ++ [⟨i, o, r, w, w'⟩]) a := by
  have hget : ∀ key, IsComposeKey S.req_id key → w'.memcached.get key = w.memcached.get key :=
    fun key hk => World.exec_get_of_ne hex fun he => hkey key he hk
  refine h.step hS hex hem hrep
    (fun c => not_missedGet_of_key fun he => hkey _ he (isComposeKey_key c)) h.gather rfl
    (fun _ => id) ?_ (fun c => ?_) h.val fun c => .inl (hget _ (isComposeKey_key c))
  · rw [hget _ .counter, h.counter]
  · rw [hget _ (isComposeKey_key c), h.store]

theorem Inv.counterStep (hS : S.Lawful) (h : S.Inv w T a) (hkey : o.key = some (keyCounter S.req_id))
    (hex : w.exec o ch = some (r, w')) (hg : a'.Inv S.comp S.Allowed) (hout : a'.outputs = a.outputs)
    (hdone : ∀ k, (a.phase k).done = true → (a'.phase k).done = true) (hstore : a'.store = a.store)
    (hcounter : w'.memcached.get (keyCounter S.req_id) = a'.counter.map fun n : ℕ => toStr n) :
    S.Inv w' (T ++ [⟨i, o, r, w, w'⟩]) a' := by
  have hne : ∀ c, o.key ≠ some (S.key c) := fun c e =>
    key_ne_counter c (Option.some.inj (e.symm.trans hkey))
  have hcomp : ∀ c, w'.memcached.get (S.key c) = w.memcached.get (S.key c) :=
    fun c => World.exec_get_of_ne hex (hne c)
  have hreports : ∀ k, ¬ S.Reports (⟨i, o, r, w, w'⟩ : ServiceEvent ι) k := by
    intro k hk
    exact not_reporting_of_key hS hkey ⟨_, k, rfl, hk⟩
  refine h.step hS hex (not_emits_of_key hS hkey) (fun k hk => absurd hk (hreports k))
    (fun c => not_missedGet_of_key (hne c)) hg hout hdone hcounter (fun c => ?_) ?_
    fun c => .inl (hcomp c)
  · rw [hcomp, h.store, hstore]
  · rw [hstore]; exact h.val

/-- An operation on the key of the component `c`. -/
theorem Inv.componentStep (hS : S.Lawful) (h : S.Inv w T a) {c : Component}
    (hkey : o.key = some (S.key c)) (hex : w.exec o ch = some (r, w'))
    (hmiss : ¬ MissedGet (S.key c) (⟨i, o, r, w, w'⟩ : ServiceEvent ι))
    (hg : a'.Inv S.comp S.Allowed) (hout : a'.outputs = a.outputs)
    (hdone : ∀ k, (a.phase k).done = true → (a'.phase k).done = true)
    (hcounter : a'.counter = a.counter) (hstore : ∀ c', c' ≠ c → a'.store c' = a.store c')
    (hc : w'.memcached.get (S.key c) = (a'.store c).map fun x => c.encode x.2)
    (hval : ∀ k v, a'.store c = some (k, v) → S.Val k v)
    (hnew : w'.memcached.get (S.key c) = w.memcached.get (S.key c) ∨
      w.memcached.get (S.key c) = none ∧
        storedBy (S.key c) (⟨i, o, r, w, w'⟩ : ServiceEvent ι) = w'.memcached.get (S.key c)) :
    S.Inv w' (T ++ [⟨i, o, r, w, w'⟩]) a' := by
  have hne : ∀ c', c' ≠ c → o.key ≠ some (S.key c') := fun c' hc' e =>
    hc' (key_inj (Option.some.inj (e.symm.trans hkey)))
  have hcomp : ∀ c', c' ≠ c → w'.memcached.get (S.key c') = w.memcached.get (S.key c') :=
    fun c' hc' => World.exec_get_of_ne hex (hne c' hc')
  have hreports : ∀ k, ¬ S.Reports (⟨i, o, r, w, w'⟩ : ServiceEvent ι) k := by
    intro k hk
    exact not_reporting_of_key hS hkey ⟨_, k, rfl, hk⟩
  refine h.step hS hex (not_emits_of_key hS hkey) (fun k hk => absurd hk (hreports k)) (fun c' => ?_)
    hg hout hdone ?_ (fun c' => ?_) (fun c' => ?_) fun c' => ?_
  · by_cases hc' : c' = c
    · rw [hc']; exact hmiss
    · exact not_missedGet_of_key (hne c' hc')
  · rw [World.exec_get_of_ne hex fun e => key_ne_counter c (Option.some.inj (hkey.symm.trans e)),
      h.counter, hcounter]
  · by_cases hc' : c' = c
    · rw [hc']; exact hc
    · rw [hcomp c' hc', h.store, hstore c' hc']
  · by_cases hc' : c' = c
    · rw [hc']; exact hval
    · rw [hstore c' hc']; exact h.val c'
  · by_cases hc' : c' = c
    · rw [hc']; exact hnew
    · exact .inl (hcomp c' hc')

/-- An operation that delivers the review assembled from `vals`. -/
theorem Inv.emitStep [DecidableEq κ] (hS : S.Lawful) (h : S.Inv w T a)
    (hex : w.exec o ch = some (r, w')) (hem : S.Emits o) {k : κ} {vals : Component → Review}
    {p : Phase Component Review} (hp : S.Allowed p)
    (hk : a.phase k = .last vals ∧ p = .composed ∨ a.phase k = .again vals ∧ p = .recomposed)
    (hgets : ∀ c, FoundGet i (S.key c) T)
    (hout : S.out w' (T ++ [⟨i, o, r, w, w'⟩]) = S.out w T ++ [assemble S.req_id vals]) :
    S.Inv w' (T ++ [⟨i, o, r, w, w'⟩]) (a.emit k vals p) := by
  have hkey : o.key = none := by rcases hS.emits o hem with ⟨f, rfl⟩ | ⟨doc, rfl⟩ <;> rfl
  have hget : ∀ key, w'.memcached.get key = w.memcached.get key :=
    fun key => World.exec_get_of_ne hex (by simp [hkey])
  have hdone : (a.phase k).done = false := by rcases hk with ⟨hk, -⟩ | ⟨hk, -⟩ <;> rw [hk] <;> rfl
  exact
    { gather := h.gather.emit hp hk
      counter := by rw [hget, h.counter]; rfl
      store := fun c => by rw [hget, h.store]; rfl
      first := by
        intro c
        rw [firstStored_append_singleton, storedBy_of_get_eq (hget _), Option.or_none, h.first]; rfl
      val := h.val
      found := by
        intro e he c
        rcases List.mem_append.mp he with he | he
        · exact h.found e he c
        · obtain rfl := List.mem_singleton.mp he
          exact not_missedGet_of_key (by simp [hkey])
      gets := by
        intro T₁ e T₂ hT he
        rcases append_singleton_split hT with ⟨T₂', hT⟩ | ⟨rfl, rfl⟩
        · exact h.gets T₁ e T₂' hT he
        · exact hgets
      out := by rw [hout, h.out]; simp [State.emit]
      reported := by
        intro e he j hj
        rcases List.mem_append.mp he with he | he
        · exact State.done_update hdone j (h.reported e he j hj)
        · obtain rfl := List.mem_singleton.mp he
          obtain ⟨q, f, hop⟩ := hS.reports _ j hj
          rcases hS.emits o hem with ⟨_, rfl⟩ | ⟨_, rfl⟩ <;> cases hop }

theorem foreign_of_isLocal (hS : S.Lawful) {o : Op} (ho : o.isLocal = true) : S.Foreign o := by
  refine ⟨fun key hkey => ?_, fun hem => ?_, not_reporting hS fun q f hop => ?_⟩
  · rw [Op.key_eq_none_of_isLocal ho] at hkey
    cases hkey
  · rcases hS.emits o hem with ⟨f, rfl⟩ | ⟨doc, rfl⟩ <;> cases ho
  · rw [hop] at ho
    cases ho

theorem foreign_of_key (hS : S.Lawful) {o : Op} {key : Bytes} (hkey : o.key = some key)
    (hne : ¬ IsComposeKey S.req_id key) : S.Foreign o := by
  refine ⟨fun key' hkey' => ?_, not_emits_of_key hS hkey, not_reporting_of_key hS hkey⟩
  rw [hkey] at hkey'
  obtain rfl := Option.some.inj hkey'
  exact hne

variable [DecidableEq ι]

theorem keeps_of_foreign (hS : S.Lawful) (ho : S.Foreign o) : S.logic.Keeps i o := by
  intro c a ch r w' hinv hex
  exact hinv.quietStep hS ho.1 ho.2.1 hex fun k hk => absurd ⟨_, k, rfl, hk⟩ ho.2.2

/-- A program that asks only for foreign operations leaves its thread's view as it is. -/
theorem wp_of_foreign (hS : S.Lawful) {β : Type} {Q : β → Prop} {p : Service β}
    (hp : p.Uses S.Foreign Q) {v : κ → Phase Component Review} :
    S.logic.wp i p (fun out v' _ => v' = v ∧ ∀ b, out = .ok b → Q b) v T :=
  Logic.wp_of_uses hp fun _ ho => keeps_of_foreign hS ho

theorem keeps_of_isLocal (hS : S.Lawful) (ho : o.isLocal = true) : S.logic.Keeps i o :=
  keeps_of_foreign hS (foreign_of_isLocal hS ho)

/-! ## The operations of a party -/

variable {k : κ} {v : κ → Phase Component Review} {p : Phase Component Review}

theorem performs_pop (hS : S.Lawful) (hd : Handler)
    {K : Bool → (κ → Phase Component Review) → List (ServiceEvent ι) → Prop}
    (hfail : S.MayFail i (.pop hd) → ∀ T', T <+: T' → K false v T')
    (hok : ∀ T', T <+: T' → K true v T') : S.logic.Performs i (.pop hd) v T K := by
  intro c a ch r w' hT hinv hview _ hadm hex hgood
  refine ⟨a, keeps_of_isLocal hS rfl c a ch r w' hinv hex, fun _ _ => rfl, ?_⟩
  have hT' := hT.trans (List.prefix_append c.trace [⟨i, .pop hd, r, c.shared, w'⟩])
  rw [hview]
  cases r with
  | true => exact hok _ hT'
  | false => exact hfail (mayFail_of hadm hex hgood ((World.exec_pop hex).2 rfl)) _ hT'

theorem view_of_owner (hown : S.owner k = i) (hview : S.logic.view i a = v) : a.phase k = v k := by
  rw [← hview]
  simp [logic, hown]

variable [DecidableEq κ]

/-- The rule for an operation by which party `k` stays in its phase or moves to a phase `p`. -/
theorem performs_of_moves (hown : S.owner k = i) {K : o.Res → (κ → Phase Component Review) →
      List (ServiceEvent ι) → Prop}
    (h : ∀ w T' a ch r w', T <+: T' → S.Inv w T' a → a.phase k = v k → S.logic.view i a = v →
      S.adm (.run i ch) → w.exec o ch = some (r, w') → S.good ⟨i, o, r, w, w'⟩ →
      (∃ a', a'.phase = a.phase ∧ S.Inv w' (T' ++ [⟨i, o, r, w, w'⟩]) a' ∧
        K r v (T' ++ [⟨i, o, r, w, w'⟩])) ∨
      ∃ a' p, a'.phase = Function.update a.phase k p ∧ S.Inv w' (T' ++ [⟨i, o, r, w, w'⟩]) a' ∧
        K r (Function.update v k p) (T' ++ [⟨i, o, r, w, w'⟩])) :
    S.logic.Performs i o v T K := by
  intro c a ch r w' hT hinv hview _ hadm hex hgood
  rcases h c.shared c.trace a ch r w' hT hinv (view_of_owner hown hview) hview hadm hex hgood with
    ⟨a', hphase, hinv', hK⟩ | ⟨a', p, hphase, hinv', hK⟩
  · have hsame : ∀ j, S.logic.view j a' = S.logic.view j a := by
      intro j
      funext k'
      simp [logic, hphase]
    refine ⟨a', hinv', fun j _ => hsame j, ?_⟩
    rw [hsame, hview]
    exact hK
  refine ⟨a', hinv', ?_, ?_⟩
  · intro j hj
    funext k'
    by_cases hk' : S.owner k' = j
    · have hne : k' ≠ k := fun e => hj (by rw [← hk', e, hown])
      simp [logic, hk', hphase, Function.update_of_ne hne]
    · simp [logic, hk']
  · convert hK using 1
    funext k'
    by_cases hk' : k' = k
    · subst hk'
      simp [logic, hown, hphase]
    · rw [Function.update_of_ne hk', ← hview]
      simp [logic, hphase, Function.update_of_ne hk']

/-- Adding the counter: afterwards it exists, and the party is ready. -/
theorem performs_addCounter (hS : S.Lawful) (hown : S.owner k = i) (hv : v k = .idle)
    {K : Option Bool → (κ → Phase Component Review) → List (ServiceEvent ι) → Prop}
    (hfail : (∃ o, S.MayFail i o) → ∀ T', T <+: T' → K none v T')
    (hok : ∀ b T', T <+: T' → K (some b) (Function.update v k .ready) T') :
    S.logic.Performs i (.add (keyCounter S.req_id) (ascii "0") mmcExpTime) v T K := by
  refine performs_of_moves hown fun w T' a ch r w' hT hinv hk _ hadm hex hgood => ?_
  rw [hv] at hk
  have hT' : ∀ e, T <+: T' ++ [e] := fun e => hT.trans (List.prefix_append _ _)
  have hdone : (a.phase k).done = false := by rw [hk]; rfl
  have hready := hS.regular .ready rfl
  cases hn : a.counter with
  | none =>
    have hzero : (a.initCounter).counter = some 0 := by simp [State.initCounter, hn]
    have hinit := hinv.gather.initCounter
    rcases World.exec_add_of_none (by rw [hinv.counter, hn]; rfl) hex with ⟨rfl, hf, rfl⟩ | ⟨hr, rfl⟩
    · exact .inl ⟨a, rfl,
        hinv.counterStep hS rfl hex hinv.gather rfl (fun _ => id) rfl hinv.counter,
        hfail ⟨_, mayFail_of hadm hex hgood (by simp [hf])⟩ _ (hT' _)⟩
    rcases hr with rfl | ⟨rfl, hf⟩
    · exact .inr ⟨a.initCounter.setPhase k .ready, .ready, rfl,
        hinv.counterStep hS rfl hex (hinit.enter hready hk (by simp [hzero])) rfl
          (State.done_update hdone) rfl (by simp [State.setPhase, hzero]; rfl), hok _ _ (hT' _)⟩
    · exact .inl ⟨a.initCounter, rfl,
        hinv.counterStep hS rfl hex hinit rfl (fun _ => id) rfl (by simp [hzero]; rfl),
        hfail ⟨_, mayFail_of hadm hex hgood (by simp [hf])⟩ _ (hT' _)⟩
  | some n =>
    obtain ⟨rfl, rfl | ⟨rfl, hf⟩⟩ := World.exec_add_of_some (by rw [hinv.counter, hn]; rfl) hex
    · exact .inr ⟨a.setPhase k .ready, .ready, rfl,
        hinv.counterStep hS rfl hex (hinv.gather.enter hready hk (by simp [hn])) rfl
          (State.done_update hdone) rfl hinv.counter, hok _ _ (hT' _)⟩
    · exact .inl ⟨a, rfl,
        hinv.counterStep hS rfl hex hinv.gather rfl (fun _ => id) rfl hinv.counter,
        hfail ⟨_, mayFail_of hadm hex hgood hf⟩ _ (hT' _)⟩

/-- Adding a component: it is new, or another party has stored it before. -/
theorem performs_addComponent (hS : S.Lawful) (hown : S.owner k = i) (hv : v k = .ready)
    {val : Review} (hval : S.Val k val)
    {K : Option Bool → (κ → Phase Component Review) → List (ServiceEvent ι) → Prop}
    (hfail : (∃ o, S.MayFail i o) → ∀ p, p = .ready ∨ p = .lost → ∀ T', T <+: T' →
      K none (Function.update v k p) T')
    (hnew : ∀ T', T <+: T' → K (some true) (Function.update v k .owes) T')
    (hold : ∀ k', k' ≠ k → S.comp k' = S.comp k → (S.owner k' = i → (v k').stored = true) →
      ∀ T', T <+: T' → K (some false) v T') :
    S.logic.Performs i (.add (S.key (S.comp k)) ((S.comp k).encode val) mmcExpTime) v T K := by
  subst hown
  refine performs_of_moves rfl fun w T' a ch r w' hT hinv hk hview hadm hex hgood => ?_
  rw [hv] at hk
  have hT' : ∀ e, T <+: T' ++ [e] := fun e => hT.trans (List.prefix_append _ _)
  have hdone : (a.phase k).done = false := by rw [hk]; rfl
  have hfail' : (∃ o, S.MayFail (S.owner k) o) → ∀ T', T <+: T' → K none v T' := by
    intro hm T' hT
    simpa [← hv] using hfail hm .ready (.inl rfl) T' hT
  have hstay : w' = w → S.Inv w' (T' ++ [⟨S.owner k, _, r, w, w'⟩]) a := by
    rintro rfl
    exact hinv.componentStep hS rfl hex (fun h => by cases h) hinv.gather rfl (fun _ => id) rfl (fun _ _ => rfl)
      (hinv.store _) (hinv.val _) (.inl rfl)
  cases hs : a.store (S.comp k) with
  | none =>
    have hnone : w.memcached.get (S.key (S.comp k)) = none := by rw [hinv.store, hs]; rfl
    rcases World.exec_add_of_none hnone hex with ⟨rfl, hf, hw'⟩ | ⟨hr, hw'⟩
    · exact .inl ⟨a, rfl, hstay hw',
        hfail' ⟨_, mayFail_of hadm hex hgood (by simp [hf])⟩ _ (hT' _)⟩
    have hget : w'.memcached.get (S.key (S.comp k)) = some ((S.comp k).encode val) := by
      rw [hw']; simp
    have hput : ∀ p, S.Allowed p → p = .owes ∨ p = .lost →
        S.Inv w' (T' ++ [⟨S.owner k, _, r, w, w'⟩]) (a.put (S.comp k) k val p) := by
      intro p hp hpp
      refine hinv.componentStep hS rfl hex (fun h => by cases h) (hinv.gather.put hp hk hs hpp) rfl
        (State.done_update hdone) rfl (fun c' hc' => Function.update_of_ne hc' _ _) ?_ ?_ ?_
      · rw [hget]; simp [State.put]
      · intro k' v' hk'
        obtain ⟨rfl, rfl⟩ : k = k' ∧ val = v' := by simpa [State.put] using hk'
        exact hval
      · exact .inr ⟨hnone, by rw [storedBy_add hnone (by simp [hget]), hget]⟩
    rcases hr with rfl | ⟨rfl, hf⟩
    · exact .inr ⟨_, .owes, rfl, hput .owes (hS.regular _ rfl) (.inl rfl), hnew _ (hT' _)⟩
    · have hlost := hS.lost_add k _ _ ⟨ch, none, w, w', hadm, hex, hgood, hf⟩
      exact .inr ⟨_, .lost, rfl, hput .lost hlost (.inr rfl),
        hfail ⟨_, mayFail_of hadm hex hgood (by simp [hf])⟩ _ (.inr rfl) _ (hT' _)⟩
  | some x =>
    obtain ⟨k', v'⟩ := x
    obtain ⟨hcomp, hstored⟩ := hinv.gather.store_comp _ _ _ hs
    have hne : k' ≠ k := by
      rintro rfl
      rw [hk] at hstored
      cases hstored
    obtain ⟨rfl, rfl | ⟨rfl, hf⟩⟩ := World.exec_add_of_some (by rw [hinv.store, hs]; rfl) hex
    · refine .inl ⟨a, rfl, hstay rfl, hold k' hne hcomp (fun ho => ?_) _ (hT' _)⟩
      rw [← view_of_owner ho hview]
      exact hstored
    · exact .inl ⟨a, rfl, hstay rfl, hfail' ⟨_, mayFail_of hadm hex hgood hf⟩ _ (hT' _)⟩

/-- Counting a component: it is the last one, or it is not. -/
theorem performs_incr (hS : S.Lawful) (hown : S.owner k = i) (hv : v k = .owes)
    {K : Option (Option UInt64) → (κ → Phase Component Review) → List (ServiceEvent ι) → Prop}
    (hfail : (∃ o, S.MayFail i o) → ∀ p, p = .lost ∨ p = .blind → ∀ T', T <+: T' →
      K none (Function.update v k p) T')
    (hlast : ∀ vals T', T <+: T' →
      K (some (some (UInt64.ofNat numComponents))) (Function.update v k (.last vals)) T')
    (hcounted : ∀ n : UInt64, n.toNat ≠ numComponents → ∀ T', T <+: T' →
      K (some (some n)) (Function.update v k .counted) T') :
    S.logic.Performs i (.incr (keyCounter S.req_id) 1) v T K := by
  subst hown
  refine performs_of_moves rfl fun w T' a ch r w' hT hinv hk hview hadm hex hgood => .inr ?_
  rw [hv] at hk
  have hT' : ∀ e, T <+: T' ++ [e] := fun e => hT.trans (List.prefix_append _ _)
  have hdone : (a.phase k).done = false := by rw [hk]; rfl
  obtain ⟨n, hn⟩ := counter_ne_none hinv (by rw [hk]; simp)
  have hle := counter_le hinv hn
  have hlt : n + 1 < 2 ^ 64 := by unfold numComponents at hle; omega
  rcases World.exec_incr_of_get (by rw [hinv.counter, hn]; rfl) hlt hex with
    ⟨rfl, hf, rfl⟩ | ⟨hr, hget, -⟩
  · have hlost := hS.lost_incr k ⟨ch, none, w', w', hadm, hex, hgood, hf⟩
    exact ⟨a.setPhase k .lost, .lost, rfl, hinv.counterStep hS rfl hex
      (hinv.gather.lose hlost hk (by simp [hn])) rfl (State.done_update hdone) rfl hinv.counter,
      hfail ⟨_, mayFail_of hadm hex hgood (by simp [hf])⟩ _ (.inl rfl) _ (hT' _)⟩
  have hcount : ∀ p, (a.count k p).Inv S.comp S.Allowed →
      S.Inv w' (T' ++ [⟨S.owner k, _, r, w, w'⟩]) (a.count k p) := fun p hg =>
    hinv.counterStep hS rfl hex hg rfl (State.done_update hdone) rfl (by
      rw [hget]; simp [State.count, hn])
  rcases hr with rfl | ⟨rfl, hf⟩
  · by_cases hfull : n + 1 = Fintype.card Component
    · obtain ⟨vals, hvals⟩ := hinv.gather.exists_snapshot_of_owes hk hn hfull
      refine ⟨_, .last vals, rfl, hcount _ (hinv.gather.count (hS.regular _ rfl) hk hn
        (.inr (.inl ⟨hfull, vals, rfl, hvals⟩))), ?_⟩
      rw [hfull]
      exact hlast vals _ (hT' _)
    · refine ⟨_, .counted, rfl, hcount _ (hinv.gather.count (hS.regular _ rfl) hk hn
        (.inr (.inr ⟨hfull, rfl⟩))), hcounted _ ?_ _ (hT' _)⟩
      rw [UInt64.toNat_ofNat_of_lt' hlt]
      exact hfull
  · have hblind := hS.blind k ⟨ch, none, w, w', hadm, hex, hgood, hf⟩
    exact ⟨_, .blind, rfl, hcount _ (hinv.gather.count hblind hk hn (.inl rfl)),
      hfail ⟨_, mayFail_of hadm hex hgood (by simp [hf])⟩ _ (.inr rfl) _ (hT' _)⟩

/-- Looking at the counter after another party has stored the component. -/
theorem performs_getCounter (hS : S.Lawful) (hown : S.owner k = i) (hv : v k = .ready) {k' : κ}
    (hne : k' ≠ k) (hcomp : S.comp k' = S.comp k)
    {K : Option (Option Bytes) → (κ → Phase Component Review) → List (ServiceEvent ι) → Prop}
    (hfail : (∃ o, S.MayFail i o) → ∀ T', T <+: T' → K none v T')
    (hfull : ∀ vals T', T <+: T' →
      K (some (some (toStr numComponents))) (Function.update v k (.again vals)) T')
    (hpart : ∀ n : ℕ, n < numComponents → S.MayRead i n → ∀ T', T <+: T' →
      K (some (some (toStr n))) v T') :
    S.logic.Performs i (.get (keyCounter S.req_id)) v T K := by
  subst hown
  refine performs_of_moves rfl fun w T' a ch r w' hT hinv hk hview hadm hex hgood => ?_
  rw [hv] at hk
  have hT' : ∀ e, T <+: T' ++ [e] := fun e => hT.trans (List.prefix_append _ _)
  have hdone : (a.phase k).done = false := by rw [hk]; rfl
  obtain ⟨n, hn⟩ := counter_ne_none hinv (k := k) (by rw [hk]; simp)
  have hget : w.memcached.get (keyCounter S.req_id) = some (toStr n) := by
    rw [hinv.counter, hn]; rfl
  obtain ⟨rfl, rfl | ⟨rfl, hf⟩⟩ := World.exec_get hex
  · rw [hget] at hex hgood ⊢
    by_cases hlt : n < numComponents
    · exact .inl ⟨a, rfl,
        hinv.counterStep hS rfl hex hinv.gather rfl (fun _ => id) rfl hinv.counter,
        hpart n hlt ⟨_, _, hget, hgood⟩ _ (hT' _)⟩
    · obtain rfl : n = numComponents := le_antisymm (counter_le hinv hn) (not_lt.mp hlt)
      obtain ⟨vals, hvals⟩ := hinv.gather.exists_snapshot hn
      have hal := (hS.again k k' hne hcomp ⟨_, _, hget, hgood⟩).1 vals
      exact .inr ⟨a.setPhase k (.again vals), .again vals, rfl,
        hinv.counterStep hS rfl hex (hinv.gather.readFull hal hk hn hvals) rfl
          (State.done_update hdone) rfl hinv.counter, hfull vals _ (hT' _)⟩
  · exact .inl ⟨a, rfl,
      hinv.counterStep hS rfl hex hinv.gather rfl (fun _ => id) rfl hinv.counter,
      hfail ⟨_, mayFail_of hadm hex hgood hf⟩ _ (hT' _)⟩

/-- Reading a component after having seen a full counter. -/
theorem performs_getComponent (hS : S.Lawful) (hown : S.owner k = i) {vals : Component → Review}
    (hv : v k = .last vals ∨ v k = .again vals) (c : Component)
    {K : Option (Option Bytes) → (κ → Phase Component Review) → List (ServiceEvent ι) → Prop}
    (hfail : S.MayFail i (.get (S.key c)) → ∀ T', T <+: T' → K none v T')
    (hfound : ∀ k', S.comp k' = c → S.Val k' (vals c) → ∀ T', T <+: T' →
      FoundGet i (S.key c) T' → K (some (some (c.encode (vals c)))) v T') :
    S.logic.Performs i (.get (S.key c)) v T K := by
  refine performs_of_moves hown fun w T' a ch r w' hT hinv hk hview hadm hex hgood => .inl ?_
  rw [← hk] at hv
  have hT' : ∀ e, T <+: T' ++ [e] := fun e => hT.trans (List.prefix_append _ _)
  obtain ⟨k', hk'⟩ := hinv.gather.snapshot k vals hv c
  have hget : w.memcached.get (S.key c) = some (c.encode (vals c)) := by
    rw [hinv.store, hk']; rfl
  have hstay : ∀ r : Option (Option Bytes), r ≠ some none → w.exec (.get (S.key c)) ch = some (r, w) →
      S.Inv w (T' ++ [⟨i, .get (S.key c), r, w, w⟩]) a := fun r hr hex =>
    hinv.componentStep hS rfl hex (fun hm => hr (readBy_get.symm.trans hm)) hinv.gather rfl (fun _ => id) rfl
      (fun _ _ => rfl) (hinv.store c) (hinv.val c) (.inl rfl)
  obtain ⟨rfl, rfl | ⟨rfl, hf⟩⟩ := World.exec_get hex
  · rw [hget] at hex hgood ⊢
    exact ⟨a, rfl, hstay _ (by simp) hex,
      hfound k' (hinv.gather.store_comp c k' _ hk').1 (hinv.val c k' _ hk') _ (hT' _)
        ⟨_, _, List.mem_append_right _ (List.mem_singleton_self _)⟩⟩
  · exact ⟨a, rfl, hstay _ (by simp) hex, hfail (mayFail_of hadm hex hgood hf) _ (hT' _)⟩

end Session

end MediaService
