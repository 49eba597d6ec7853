import Fuyao.Rdma.Handshake
import Fuyao.Concurrency.Proofs.ProgProofs
import Fuyao.Concurrency.Proofs.StreamProofs
import Mathlib.Data.List.Nodup

/-!
# Proofs: handshakes pair the right endpoints

The invariant names the info `g i` that the server created while it handled the connection of thread `i`.
Every stream holds no more than a beginning of one info, that of the thread in one direction and `g i` in
the other; so a read of the length of an info returns that info, however it was fragmented.
-/

namespace Rdma

open Cpp Concurrency

variable {ι P Info : Type} {layout : Layout Info} {process : ι → P} {s s' : State ι P Info}
  {g : ι → Option Info}

/-! ## The invariant -/

/-- The server has the info that thread `i` sent. -/
def KnowsPeer (s : State ι P Info) (i : ι) : Prop :=
  ∃ p, s.peer_rdma_info_ = some p ∧ (s.client i).sent = some p

/-- The server's queue pair and info are those created for thread `i`. -/
def KnowsSelf (layout : Layout Info) (s : State ι P Info) (g : ι → Option Info) (i : ι) : Prop :=
  ∃ x, g i = some x ∧ s.self_rdma_info_ = some x ∧ s.qp_ = some (layout.qpNum x)

/-- What the server knows about the connection that it handles. -/
def Serving (layout : Layout Info) (s : State ι P Info) (g : ι → Option Info) : Server ι → Prop
  | .reading (some i) => g i = none
  | .preparing i => g i = none ∧ KnowsPeer s i
  | .sending i => KnowsSelf layout s g i ∧ KnowsPeer s i ∧ (s.toClient i).content = []
  | .closing i | .building i => KnowsSelf layout s g i ∧ KnowsPeer s i
  | _ => True

theorem Serving.mono {srv : Server ι} (h : Serving layout s g srv)
    (hself : ∀ i, KnowsSelf layout s g i → KnowsSelf layout s' g i)
    (hpeer : ∀ i, KnowsPeer s i → KnowsPeer s' i)
    (hnil : ∀ i, (s.toClient i).content = [] → (s'.toClient i).content = []) :
    Serving layout s' g srv := by
  cases srv with
  | accepting => trivial
  | reading fd =>
    cases fd with
    | none => trivial
    | some i => exact h
  | preparing i => exact ⟨h.1, hpeer i h.2⟩
  | sending i => exact ⟨hself i h.1, hpeer i h.2.1, hnil i h.2.2⟩
  | closing i => exact ⟨hself i h.1, hpeer i h.2⟩
  | building i => exact ⟨hself i h.1, hpeer i h.2⟩
  | exited => trivial

/-- A stream is only described as long as somebody may read from it. -/
structure Inv (layout : Layout Info) (process : ι → P) (s : State ι P Info) (g : ι → Option Info) :
    Prop where
  nodup : (s.created.map layout.qpNum).Nodup
  created : ∀ x, x ∈ s.created ↔ ∃ i, g i = some x
  unique : ∀ i j x, g i = some x → g j = some x → i = j
  toServer : s.server ≠ .exited →
    ∀ i, (s.toServer i).content <+: (s.client i).sent.elim [] layout.bytes
  toClient : ∀ i, s.exited (process i) = false →
    (s.toClient i).content <+: (g i).elim [] layout.bytes
  silent : ∀ i, g i = none → (s.toClient i).content = []
  pairs : ∀ i x y, (s.client i).pair = some (x, y) → g i = some y
  backlog_nodup : s.backlog.Nodup
  backlog : ∀ i ∈ s.backlog, ¬ (s.client i).Unconnected
  waiting : ∀ i, (s.client i).Unconnected ∨ i ∈ s.backlog → g i = none ∧ s.server.fd ≠ some i
  serving : Serving layout s g s.server
  builds : ∀ qp p, (qp, p) ∈ s.builds →
    ∃ i x, g i = some x ∧ layout.qpNum x = qp ∧ (s.client i).sent = some p

theorem inv_initial : Inv layout process (.initial : State ι P Info) fun _ => none where
  nodup := List.nodup_nil
  created := by simp [State.initial]
  unique := by simp
  toServer _ i := List.nil_prefix
  toClient i _ := List.nil_prefix
  silent _ _ := rfl
  pairs := by simp [State.initial, Client.pair]
  backlog_nodup := List.nodup_nil
  backlog := by simp [State.initial]
  waiting := by simp [State.initial, Server.fd]
  serving := trivial
  builds := by simp [State.initial]

/-- Where a stream holds at most the beginning of an info, whoever reads as many bytes as an info has gets
that info. -/
theorem Layout.read_info (layout : Layout Info) {st st' : Stream UInt8} {o : Option Info}
    (hst : st.content <+: o.elim [] layout.bytes) {xs : Bytes} (hread : st.read layout.size = some (xs, st')) :
    ∃ x, o = some x ∧ layout.ofBytes xs = x ∧ st'.content = [] := by
  cases o with
  | none =>
    have hnone := Stream.not_read_of_nil (List.prefix_nil.mp hst) layout.size
    rw [hread] at hnone
    cases hnone
  | some x =>
    rw [← layout.length_bytes x] at hread
    obtain ⟨rfl, hrest⟩ := Stream.read_message hst hread
    exact ⟨x, rfl, layout.ofBytes_bytes x, hrest⟩

variable [DecidableEq ι]

@[simp] theorem setClient_client (i j : ι) (x : Client Info) :
    (s.setClient i x).client j = if j = i then x else s.client j := by
  by_cases hj : j = i
  · subst hj
    simp [State.setClient]
  · simp [State.setClient, hj]

/-- The infos after one has been created for a thread that had none. -/
theorem update_eq_some_iff {i j : ι} {x y : Info} (hnone : g i = none) :
    Function.update g i (some x) j = some y ↔ j = i ∧ y = x ∨ g j = some y := by
  by_cases hji : j = i
  · subst hji
    rw [Function.update_self, hnone, Option.some_inj]
    simp [eq_comm]
  · simp [hji]

namespace Inv

/-! ## Steps of the client threads -/

/-- A thread moves on: it keeps what it has sent, and what it holds is what was created for it. -/
theorem setClient (h : Inv layout process s g) {i : ι} {x : Client Info}
    (hsent : ∀ p, (s.client i).sent = some p → x.sent = some p)
    (hstream : s.server ≠ .exited → (s.toServer i).content <+: x.sent.elim [] layout.bytes)
    (hpair : ∀ a b, x.pair = some (a, b) → g i = some b)
    (hconn : x.Unconnected → (s.client i).Unconnected) (hback : i ∈ s.backlog → ¬ x.Unconnected) :
    Inv layout process (s.setClient i x) g := by
  have hmono : ∀ j p, (s.client j).sent = some p → ((s.setClient i x).client j).sent = some p := by
    intro j p hj
    rw [setClient_client]
    split
    next heq =>
      subst heq
      exact hsent p hj
    · exact hj
  have hpeer : ∀ j, KnowsPeer s j → KnowsPeer (s.setClient i x) j := by
    rintro j ⟨p, hp, hj⟩
    exact ⟨p, hp, hmono j p hj⟩
  refine ⟨h.nodup, h.created, h.unique, fun hs j => ?_, h.toClient, h.silent, fun j a b => ?_, h.backlog_nodup,
    fun j hj => ?_, fun j hj => h.waiting j ?_, ?_, fun qp p hmem => ?_⟩
  · rw [setClient_client]
    split
    next heq =>
      subst heq
      exact hstream hs
    · exact h.toServer hs j
  · rw [setClient_client]
    split
    next heq =>
      subst heq
      exact hpair a b
    · exact h.pairs j a b
  · rw [setClient_client]
    split
    next heq =>
      subst heq
      exact hback hj
    · exact h.backlog j hj
  · rw [setClient_client] at hj
    split at hj
    next heq =>
      subst heq
      exact hj.imp_left hconn
    · exact hj
  · exact h.serving.mono (fun _ hj => hj) hpeer (fun _ hj => hj)
  · obtain ⟨j, y, hy, hqp, hj⟩ := h.builds qp p hmem
    exact ⟨j, y, hy, hqp, hmono j p hj⟩

/-- The stream from thread `i` to the server changes. -/
theorem setToServer (h : Inv layout process s g) {i : ι} {st : Stream UInt8}
    (hst : s.server ≠ .exited → st.content <+: (s.client i).sent.elim [] layout.bytes) :
    Inv layout process { s with toServer := Function.update s.toServer i st } g := by
  refine ⟨h.nodup, h.created, h.unique, fun hs j => ?_, h.toClient, h.silent, h.pairs, h.backlog_nodup,
    h.backlog, h.waiting, h.serving, h.builds⟩
  by_cases hj : j = i
  · subst hj
    simpa using hst hs
  · simpa [hj] using h.toServer hs j

/-- A stream that takes the place of another one is empty if that one was. -/
theorem content_update_eq_nil {streams : ι → Stream UInt8} {i j : ι} {st : Stream UInt8}
    (hnil : (streams i).content = [] → st.content = []) (hj : (streams j).content = []) :
    (Function.update streams i st j).content = [] := by
  by_cases hji : j = i
  · subst hji
    simpa using hnil hj
  · simpa [hji] using hj

/-- The stream from the server to thread `i` changes. -/
theorem setToClient (h : Inv layout process s g) {i : ι} {st : Stream UInt8}
    (hst : s.exited (process i) = false → st.content <+: (g i).elim [] layout.bytes)
    (hnil : (s.toClient i).content = [] → st.content = []) :
    Inv layout process { s with toClient := Function.update s.toClient i st } g := by
  refine ⟨h.nodup, h.created, h.unique, h.toServer, fun j hj => ?_, ?_, h.pairs, h.backlog_nodup,
    h.backlog, h.waiting, ?_, h.builds⟩
  · by_cases hji : j = i
    · subst hji
      simpa using hst hj
    · simpa [hji] using h.toClient j hj
  · exact fun j hj => content_update_eq_nil hnil (h.silent j hj)
  · exact h.serving.mono (fun _ hj => hj) (fun _ hj => hj) fun j hj => content_update_eq_nil hnil hj

/-- A client process exits; its threads read no more. -/
theorem exitClient [DecidableEq P] (h : Inv layout process s g) (i : ι) (st : Stream UInt8)
    (hnil : (s.toClient i).content = [] → st.content = []) :
    Inv layout process { s with
      toClient := Function.update s.toClient i st,
      exited := Function.update s.exited (process i) true } g := by
  refine ⟨h.nodup, h.created, h.unique, h.toServer, fun j hj => ?_, ?_, h.pairs, h.backlog_nodup,
    h.backlog, h.waiting, ?_, h.builds⟩
  · by_cases hp : process j = process i
    · simp [hp] at hj
    · have hji : j ≠ i := fun heq => hp (congrArg process heq)
      simp only [Function.update_of_ne hp] at hj
      simpa [hji] using h.toClient j hj
  · exact fun j hj => content_update_eq_nil hnil (h.silent j hj)
  · exact h.serving.mono (fun _ hj => hj) (fun _ hj => hj) fun j hj => content_update_eq_nil hnil hj

/-- A thread moves on before it has sent its info. -/
theorem setClient_unsent (h : Inv layout process s g) {i : ι} {x : Client Info}
    (hi : (s.client i).sent = none) (hx : x.sent = none) (hpair : x.pair = none)
    (hconn : x.Unconnected → (s.client i).Unconnected) (hback : i ∈ s.backlog → ¬ x.Unconnected) :
    Inv layout process (s.setClient i x) g := by
  refine h.setClient (by simp [hi]) (fun hs => ?_) (by simp [hpair]) hconn hback
  rw [hx, ← hi]
  exact h.toServer hs i

theorem createQueuePair (h : Inv layout process s g) {i : ι} (hc : s.client i = .starting) (qp : ℕ) :
    Inv layout process (s.setClient i (.connecting qp)) g := by
  have hstart : (s.client i).Unconnected := by
    rw [hc]
    trivial
  exact h.setClient_unsent (by rw [hc]; rfl) rfl rfl (fun _ => hstart)
    fun hi => absurd hstart (h.backlog i hi)

omit [DecidableEq ι] in
/-- A connection that the server knows nothing about comes into the backlog. -/
theorem enqueue (h : Inv layout process s g) {i : ι} (hi : i ∉ s.backlog)
    (hconn : ¬ (s.client i).Unconnected) (hwait : g i = none ∧ s.server.fd ≠ some i) :
    Inv layout process { s with backlog := s.backlog ++ [i] } g := by
  refine ⟨h.nodup, h.created, h.unique, h.toServer, h.toClient, h.silent, h.pairs, ?_, ?_, ?_,
    h.serving.mono (fun _ hj => hj) (fun _ hj => hj) (fun _ hj => hj), h.builds⟩
  · refine List.nodup_append.mpr ⟨h.backlog_nodup, List.nodup_singleton _, ?_⟩
    intro a ha b hb
    obtain rfl := List.mem_singleton.mp hb
    rintro rfl
    exact hi ha
  · intro j hj
    rcases List.mem_append.mp hj with hj | hj
    · exact h.backlog j hj
    · obtain rfl := List.mem_singleton.mp hj
      exact hconn
  · rintro j (hj | hj)
    · exact h.waiting j (.inl hj)
    · rcases List.mem_append.mp hj with hj | hj
      · exact h.waiting j (.inr hj)
      · obtain rfl := List.mem_singleton.mp hj
        exact hwait

theorem connect (h : Inv layout process s g) {i : ι} {qp : ℕ} (hc : s.client i = .connecting qp)
    (connected : Bool) :
    Inv layout process ({ s with backlog := if connected then s.backlog ++ [i] else s.backlog }.setClient i
      (.preparing qp connected)) g := by
  have hstart : (s.client i).Unconnected := by
    rw [hc]
    trivial
  have hnot : i ∉ s.backlog := fun hi => h.backlog i hi hstart
  have h₁ : Inv layout process (s.setClient i (.preparing qp connected)) g :=
    h.setClient_unsent (by rw [hc]; rfl) rfl rfl (fun _ => hstart) (fun hi => absurd hi hnot)
  cases connected with
  | false => exact h₁
  | true => exact h₁.enqueue hnot (by simp [Client.Unconnected]) (h.waiting i (.inl hstart))

theorem prepareClient (h : Inv layout process s g) {i : ι} {qp : ℕ} {connected : Bool}
    (hc : s.client i = .preparing qp connected) (self : Info) :
    Inv layout process (s.setClient i (.sending connected self)) g :=
  h.setClient_unsent (by rw [hc]; rfl) rfl rfl nofun fun _ => nofun

theorem send (h : Inv layout process s g) {i : ι} {connected : Bool} {self : Info}
    (hc : s.client i = .sending connected self) (n : ℕ) :
    Inv layout process ({ s with
      toServer := if connected
        then Function.update s.toServer i ((s.toServer i).send ((layout.bytes self).take n))
        else s.toServer }.setClient i (.reading connected self)) g := by
  -- nothing was sent before
  have hnil : s.server ≠ .exited → (s.toServer i).content = [] := by
    intro hs
    have hto := h.toServer hs i
    rw [hc] at hto
    exact List.prefix_nil.mp hto
  have h₁ : Inv layout process (s.setClient i (.reading connected self)) g :=
    h.setClient (by simp [hc, Client.sent]) (fun hs => by rw [hnil hs]; exact List.nil_prefix)
      (by simp [Client.pair]) nofun fun _ => nofun
  cases connected with
  | false => exact h₁
  | true =>
    refine h₁.setToServer fun hs => ?_
    simpa [hnil hs, Client.sent] using List.take_prefix n _

/-- A thread that reads as many bytes as an info has gets the info that was created for it. -/
theorem readInfo (h : Inv layout process s g) {i : ι} {connected : Bool} {self : Info}
    (hc : s.client i = .reading connected self) (hrun : s.exited (process i) = false) {xs : Bytes}
    {st : Stream UInt8} (hread : (s.toClient i).read layout.size = some (xs, st)) :
    Inv layout process ({ s with toClient := Function.update s.toClient i st }.setClient i
      (.building self (layout.ofBytes xs))) g := by
  obtain ⟨x, hg, hx, hrest⟩ := layout.read_info (h.toClient i hrun) hread
  have h₁ : Inv layout process { s with toClient := Function.update s.toClient i st } g :=
    h.setToClient (fun _ => by rw [hrest]; exact List.nil_prefix) fun _ => hrest
  refine h₁.setClient (by simp [hc, Client.sent]) (fun hs => ?_) ?_ nofun fun _ => nofun
  · have hto := h.toServer hs i
    rw [hc] at hto
    exact hto
  · intro a b hab
    cases hab
    rw [hg, hx]

theorem build (h : Inv layout process s g) {i : ι} {self peer : Info} (hc : s.client i = .building self peer) :
    Inv layout process (s.setClient i (.built self peer)) g := by
  refine h.setClient (by simp [hc, Client.sent]) (fun hs => ?_) (fun a b hab => ?_) nofun fun _ => nofun
  · have hto := h.toServer hs i
    rw [hc] at hto
    exact hto
  · exact h.pairs i a b (by rw [hc]; exact hab)

/-- The threads' steps keep the invariant. -/
theorem clientStep [DecidableEq P] (h : Inv layout process s g) {i : ι} {l : Label ι Info}
    (hrun : s.exited (process i) = false)
    (hst : s.clientStep layout process i (s.client i) l = some s') : Inv layout process s' g := by
  unfold State.clientStep at hst
  split at hst
  next hc =>
    cases hst
    exact h.createQueuePair hc _
  next hc =>
    cases hst
    exact h.connect hc _
  next hc =>
    obtain ⟨-, heq⟩ := Option.ite_none_right_eq_some.mp hst
    cases heq
    exact h.prepareClient hc _
  next hc =>
    cases hst
    exact h.send hc _
  next n hc =>
    split at hst
    · cases hst
      simpa using h.exitClient i (s.toClient i) id
    obtain ⟨-, hst⟩ := Option.ite_none_right_eq_some.mp hst
    obtain ⟨⟨xs, st⟩, hread, heq⟩ := Option.map_eq_some_iff.mp hst
    dsimp only at heq
    split at heq
    next hn =>
      subst heq
      exact h.readInfo hc hrun (hn ▸ hread)
    · subst heq
      exact h.exitClient i st (Stream.content_eq_nil_of_read hread)
  next hc =>
    cases hst
    exact h.build hc
  · cases hst

/-! ## Steps of the server -/

omit [DecidableEq ι] in
/-- The server moves on with the connection it handles. -/
theorem setServer (h : Inv layout process s g) {srv : Server ι} (hrun : s.server ≠ .exited)
    (hfd : ∀ i, srv.fd = some i → s.server.fd = some i) (hserving : Serving layout s g srv) :
    Inv layout process { s with server := srv } g := by
  refine ⟨h.nodup, h.created, h.unique, fun _ => h.toServer hrun, h.toClient, h.silent, h.pairs,
    h.backlog_nodup, h.backlog, fun i hi => ?_,
    hserving.mono (fun _ hj => hj) (fun _ hj => hj) (fun _ hj => hj), h.builds⟩
  obtain ⟨hg, hne⟩ := h.waiting i hi
  exact ⟨hg, fun heq => hne (hfd i heq)⟩

omit [DecidableEq ι] in
/-- The server exits; it reads no more. -/
theorem exitServer (h : Inv layout process s g) (f : ι → Stream UInt8) :
    Inv layout process { s with toServer := f, server := .exited } g := by
  refine ⟨h.nodup, h.created, h.unique, fun hs => absurd rfl hs, h.toClient, h.silent, h.pairs,
    h.backlog_nodup, h.backlog, fun i hi => ⟨(h.waiting i hi).1, nofun⟩, trivial, h.builds⟩

omit [DecidableEq ι] in
/-- A number that is not used by any queue pair does not make one appear twice. -/
theorem nodup_append_fresh (h : Inv layout process s g) {x : Info}
    (hfresh : layout.qpNum x ∉ s.created.map layout.qpNum) :
    ((s.created ++ [x]).map layout.qpNum).Nodup := by
  rw [List.map_append]
  refine List.nodup_append.mpr ⟨h.nodup, List.nodup_singleton _, ?_⟩
  intro a ha b hb
  obtain rfl := List.mem_singleton.mp hb
  rintro rfl
  exact hfresh ha

/-- The server creates a queue pair for the connection it handles. -/
theorem prepare (h : Inv layout process s g) {i : ι} (hs : s.server = .preparing i) {x : Info}
    (hfresh : layout.qpNum x ∉ s.created.map layout.qpNum) :
    Inv layout process { s with
      server := .sending i, qp_ := some (layout.qpNum x), self_rdma_info_ := some x,
      created := s.created ++ [x] } (Function.update g i (some x)) := by
  have hserving := h.serving
  rw [hs] at hserving
  obtain ⟨hnone, hpeer⟩ := hserving
  have hnew : ∀ j, g j ≠ some x := by
    intro j hj
    exact hfresh (List.mem_map_of_mem ((h.created x).mpr ⟨j, hj⟩))
  have hold : ∀ {j y}, g j = some y → Function.update g i (some x) j = some y :=
    fun hj => (update_eq_some_iff hnone).mpr (.inr hj)
  refine ⟨h.nodup_append_fresh hfresh, fun y => ?_, fun j k y hj hk => ?_,
    fun _ => h.toServer (by rw [hs]; nofun), fun j hj => ?_, fun j hj => h.silent j ?_,
    fun j a b hab => hold (h.pairs j a b hab), h.backlog_nodup, h.backlog, fun j hj => ?_, ?_, ?_⟩
  · rw [List.mem_append, h.created, List.mem_singleton]
    simp only [update_eq_some_iff hnone, exists_or, exists_eq_left]
    exact or_comm
  · rcases (update_eq_some_iff hnone).mp hj with ⟨rfl, rfl⟩ | hj'
    · rcases (update_eq_some_iff hnone).mp hk with ⟨rfl, -⟩ | hk'
      · rfl
      · exact absurd hk' (hnew k)
    · rcases (update_eq_some_iff hnone).mp hk with ⟨-, rfl⟩ | hk'
      · exact absurd hj' (hnew j)
      · exact h.unique j k y hj' hk'
  · cases hg : g j with
    | none =>
      rw [h.silent j hg]
      exact List.nil_prefix
    | some y =>
      have hto := h.toClient j hj
      rw [hg] at hto
      rw [hold hg]
      exact hto
  · cases hg : g j with
    | none => rfl
    | some y =>
      rw [hold hg] at hj
      cases hj
  · obtain ⟨hg, hne⟩ := h.waiting j hj
    rw [hs] at hne
    have hji : j ≠ i := fun hji => hne (congrArg some hji.symm)
    exact ⟨by rw [Function.update_of_ne hji, hg], hne⟩
  · exact ⟨⟨x, Function.update_self .., rfl, rfl⟩, hpeer, h.silent i hnone⟩
  · intro qp p hmem
    obtain ⟨j, y, hy, hqp, hj⟩ := h.builds qp p hmem
    exact ⟨j, y, hold hy, hqp, hj⟩

/-- The server takes a connection from the backlog. -/
theorem accept (h : Inv layout process s g) (hs : s.server = .accepting) {i : ι} (hi : i ∈ s.backlog) :
    Inv layout process { s with server := .reading (some i), backlog := s.backlog.erase i } g := by
  have hnone := (h.waiting i (.inr hi)).1
  refine ⟨h.nodup, h.created, h.unique, fun _ => h.toServer (by rw [hs]; nofun), h.toClient,
    h.silent, h.pairs, h.backlog_nodup.erase i,
    fun j hj => h.backlog j (List.mem_of_mem_erase hj), fun j hj => ?_, hnone, h.builds⟩
  have hji : i ≠ j := by
    rintro rfl
    rcases hj with hj | hj
    · exact h.backlog i hi hj
    · exact h.backlog_nodup.not_mem_erase hj
  have hj' : (s.client j).Unconnected ∨ j ∈ s.backlog := hj.imp_right List.mem_of_mem_erase
  exact ⟨(h.waiting j hj').1, fun heq => hji (Option.some.inj heq)⟩

/-- The server that reads as many bytes as an info has gets the info that the thread sent. -/
theorem serverRead (h : Inv layout process s g) {i : ι} (hs : s.server = .reading (some i)) {xs : Bytes}
    {st : Stream UInt8} (hread : (s.toServer i).read layout.size = some (xs, st)) :
    Inv layout process { s with
      toServer := Function.update s.toServer i st, server := .preparing i,
      peer_rdma_info_ := some (layout.ofBytes xs) } g := by
  have hrun : s.server ≠ .exited := by
    rw [hs]
    nofun
  have hserving := h.serving
  rw [hs] at hserving
  obtain ⟨p, hsent, hp, hrest⟩ := layout.read_info (h.toServer hrun i) hread
  have h₁ : Inv layout process { s with toServer := Function.update s.toServer i st } g :=
    h.setToServer fun _ => by rw [hrest]; exact List.nil_prefix
  refine ⟨h₁.nodup, h₁.created, h₁.unique, fun _ => h₁.toServer hrun,
    h₁.toClient, h₁.silent, h₁.pairs, h₁.backlog_nodup, h₁.backlog, fun j hj => ?_, ?_, h₁.builds⟩
  · obtain ⟨hg, hne⟩ := h.waiting j hj
    rw [hs] at hne
    exact ⟨hg, hne⟩
  · exact ⟨hserving, p, by rw [hp], hsent⟩

/-- The server sends the info that it created for the connection, the first that the thread gets. -/
theorem serverSend (h : Inv layout process s g) {i : ι} (hs : s.server = .sending i) {x : Info}
    (hx : s.self_rdma_info_ = some x) (n : ℕ) :
    Inv layout process { s with
      server := .closing i,
      toClient := Function.update s.toClient i ((s.toClient i).send ((layout.bytes x).take n)) } g := by
  have hserving := h.serving
  rw [hs] at hserving
  obtain ⟨⟨x', hg, hx', hqp⟩, hpeer, hnil⟩ := hserving
  obtain rfl : x = x' := Option.some.inj (hx.symm.trans hx')
  have h₁ : Inv layout process { s with server := .closing i } g :=
    h.setServer (by rw [hs]; nofun) (fun j hj => by rw [hs]; exact hj) ⟨⟨x, hg, hx, hqp⟩, hpeer⟩
  have hnew : ((s.toClient i).send ((layout.bytes x).take n)).content <+: (g i).elim [] layout.bytes := by
    rw [hg, Stream.content_send, hnil]
    exact List.take_prefix n _
  refine ⟨h₁.nodup, h₁.created, h₁.unique, h₁.toServer, fun j hj => ?_, fun j hj => ?_, h₁.pairs,
    h₁.backlog_nodup, h₁.backlog, h₁.waiting, ⟨⟨x, hg, hx, hqp⟩, hpeer⟩, h₁.builds⟩
  · by_cases hji : j = i
    · subst hji
      simpa using hnew
    · simpa [hji] using h.toClient j hj
  · by_cases hji : j = i
    · subst hji
      rw [hg] at hj
      cases hj
    · simpa [hji] using h.silent j hj

omit [DecidableEq ι] in
/-- The server builds the channel of the connection, with the info of its peer. -/
theorem serverBuild (h : Inv layout process s g) {i : ι} (hs : s.server = .building i) {qp : ℕ} {peer : Info}
    (hqp : s.qp_ = some qp) (hpeer : s.peer_rdma_info_ = some peer) :
    Inv layout process { s with server := .accepting, builds := s.builds ++ [(qp, peer)] } g := by
  have hserving := h.serving
  rw [hs] at hserving
  obtain ⟨⟨x, hg, -, hx⟩, p, hp, hsent⟩ := hserving
  have h₁ : Inv layout process { s with server := .accepting } g :=
    h.setServer (by rw [hs]; nofun) nofun trivial
  refine ⟨h₁.nodup, h₁.created, h₁.unique, h₁.toServer, h₁.toClient, h₁.silent, h₁.pairs,
    h₁.backlog_nodup, h₁.backlog, h₁.waiting, trivial, fun qp' q hmem => ?_⟩
  rcases List.mem_append.mp hmem with hmem | hmem
  · exact h.builds qp' q hmem
  · cases List.mem_singleton.mp hmem
    obtain rfl := Option.some.inj (hqp.symm.trans hx)
    obtain rfl := Option.some.inj (hpeer.symm.trans hp)
    exact ⟨i, x, hg, rfl, hsent⟩

/-- The server's steps keep the invariant. -/
theorem serverStep (h : Inv layout process s g) {l : Label ι Info}
    (hst : s.serverStep layout s.server l = some s') : ∃ g', Inv layout process s' g' := by
  unfold State.serverStep at hst
  split at hst
  next hs =>
    split at hst
    · cases hst
      exact ⟨g, h.setServer (by rw [hs]; nofun) nofun trivial⟩
    · obtain ⟨hi, heq⟩ := Option.ite_none_right_eq_some.mp hst
      cases heq
      exact ⟨g, h.accept hs hi⟩
  next fd n hs =>
    split at hst
    · cases hst
      exact ⟨g, h.exitServer s.toServer⟩
    split at hst
    · cases hst
    · obtain ⟨-, hst⟩ := Option.ite_none_right_eq_some.mp hst
      obtain ⟨⟨xs, st⟩, hread, heq⟩ := Option.map_eq_some_iff.mp hst
      dsimp only at heq
      split at heq
      next hn =>
        subst heq
        exact ⟨g, h.serverRead hs (hn ▸ hread)⟩
      · subst heq
        exact ⟨g, h.exitServer _⟩
  next hs =>
    obtain ⟨hfresh, heq⟩ := Option.ite_none_right_eq_some.mp hst
    cases heq
    exact ⟨_, h.prepare hs hfresh⟩
  next hs =>
    obtain ⟨x, hx, rfl⟩ := Option.map_eq_some_iff.mp hst
    exact ⟨g, h.serverSend hs hx _⟩
  next i hs =>
    cases hst
    have hserving := h.serving
    rw [hs] at hserving
    exact ⟨g, h.setServer (by rw [hs]; nofun) (fun j hj => by rw [hs]; exact hj) hserving⟩
  next hs =>
    split at hst
    next hqp hpeer =>
      cases hst
      exact ⟨g, h.serverBuild hs hqp hpeer⟩
    · cases hst
  · cases hst

/-- Every step keeps the invariant. -/
theorem step [DecidableEq P] (h : Inv layout process s g) {l : Label ι Info}
    (hst : s.step layout process l = some s') : ∃ g', Inv layout process s' g' := by
  have hclient : ∀ i l, (if s.exited (process i) then none
      else s.clientStep layout process i (s.client i) l) = some s' → ∃ g', Inv layout process s' g' := by
    intro i l hst
    obtain ⟨hrun, hst⟩ := Option.ite_none_left_eq_some.mp hst
    exact ⟨g, h.clientStep (Bool.not_eq_true _ ▸ hrun) hst⟩
  cases l with
  | createQueuePair i qp => exact hclient i _ hst
  | connect i connected => exact hclient i _ hst
  | prepare i self => exact hclient i _ hst
  | send i n => exact hclient i _ hst
  | read i n => exact hclient i _ hst
  | build i => exact hclient i _ hst
  | deliverToServer i n =>
    cases hst
    exact ⟨g, h.setToServer fun hs => by rw [Stream.content_deliver]; exact h.toServer hs i⟩
  | deliverToClient i n =>
    cases hst
    exact ⟨g, h.setToClient (fun hrun => by rw [Stream.content_deliver]; exact h.toClient i hrun)
      (fun hnil => by rw [Stream.content_deliver, hnil])⟩
  | accept fd => exact h.serverStep hst
  | serverRead n => exact h.serverStep hst
  | serverPrepare self => exact h.serverStep hst
  | serverSend n => exact h.serverStep hst
  | serverClose => exact h.serverStep hst
  | serverBuild => exact h.serverStep hst

end Inv

theorem exists_inv [DecidableEq P] (h : Reachable layout process s) :
    ∃ g, Inv layout process s g :=
  h.invariant (J := fun s => ∃ g, Inv layout process s g) ⟨_, inv_initial⟩
    fun _ _ _ ⟨_, hinv⟩ _ hst => hinv.step hst

/-! ## Agreement -/

/-- In every reachable state: the queue pairs that the server created have different numbers; a thread
that has reached `build_rdma_channel` holds the info of one of them; the server calls
`build_rdma_channel` on that queue pair with no other info than the one this thread sent; and no other
thread holds it. -/
theorem handshakes_pair [DecidableEq P] (layout : Layout Info) (process : ι → P) (s : State ι P Info)
    (h : Reachable layout process s) :
    (s.created.map layout.qpNum).Nodup ∧
    ∀ i self peer, (s.client i).pair = some (self, peer) →
      peer ∈ s.created ∧
      (s.client i).sent = some self ∧
      (∀ p, (layout.qpNum peer, p) ∈ s.builds → p = self) ∧
      ∀ j self' peer', j ≠ i → (s.client j).pair = some (self', peer') →
        layout.qpNum peer' ≠ layout.qpNum peer := by
  obtain ⟨g, hinv⟩ := exists_inv h
  refine ⟨hinv.nodup, ?_⟩
  intro i self peer hpair
  have hg := hinv.pairs i self peer hpair
  have hsent : (s.client i).sent = some self := by
    cases hc : s.client i with
    | building self' peer' =>
      rw [hc] at hpair
      cases hpair
      rfl
    | built self' peer' =>
      rw [hc] at hpair
      cases hpair
      rfl
    | _ =>
      rw [hc] at hpair
      cases hpair
  -- an info that was created for a thread is known by its number
  have hnum : ∀ j x, g j = some x → layout.qpNum x = layout.qpNum peer → j = i := by
    intro j x hj heq
    have hx := List.inj_on_of_nodup_map hinv.nodup ((hinv.created x).mpr ⟨j, hj⟩)
      ((hinv.created peer).mpr ⟨i, hg⟩) heq
    exact hinv.unique j i peer (hx ▸ hj) hg
  refine ⟨(hinv.created peer).mpr ⟨i, hg⟩, hsent, ?_, ?_⟩
  · intro p hp
    obtain ⟨j, x, hj, hqp, hjs⟩ := hinv.builds _ p hp
    obtain rfl := hnum j x hj hqp
    rw [hsent] at hjs
    exact (Option.some.inj hjs).symm
  · intro j self' peer' hji hpair' heq
    exact hji (hnum j peer' (hinv.pairs j self' peer' hpair') heq)

/-- Infos of two bytes, the first of which is the number of the queue pair. -/
def sampleLayout : Layout (UInt8 × UInt8) where
  size := 2
  bytes x := [x.1, x.2]
  ofBytes
    | [a, b] => (a, b)
    | _ => (0, 0)
  qpNum x := x.1.toNat
  length_bytes _ := rfl
  ofBytes_bytes _ := rfl

/-- Two threads of one process; the one that connects last is served first, and its info arrives in two
pieces. -/
def sampleHandshakes : List (Label Bool (UInt8 × UInt8)) :=
  [.createQueuePair false 1, .createQueuePair true 2, .connect false true, .connect true true,
    .prepare false (1, 0), .prepare true (2, 0), .send true 2, .send false 2, .deliverToServer true 1,
    .accept (some true), .deliverToServer true 1, .deliverToServer false 2, .serverRead 2,
    .serverPrepare (7, 0), .serverSend 2, .serverClose, .deliverToClient true 2, .read true 2,
    .build true, .serverBuild, .accept (some false), .serverRead 2, .serverPrepare (8, 0),
    .serverSend 2, .serverClose, .serverBuild, .deliverToClient false 2, .read false 2, .build false]

theorem handshakes_pair_sample :
    ∃ s, Reachable sampleLayout (fun _ => ()) s ∧ s.client false = .built (1, 0) (8, 0) ∧
      s.client true = .built (2, 0) (7, 0) ∧ s.builds = [(7, (2, 0)), (8, (1, 0))] ∧
      ((8 : UInt8), (0 : UInt8)) ∈ s.created ∧ ∀ p, (8, p) ∈ s.builds → p = (1, 0) := by
  obtain ⟨s, hs, hfalse, htrue, hbuilds⟩ : ∃ s, Reachable sampleLayout (fun _ => ()) s ∧
      s.client false = .built (1, 0) (8, 0) ∧ s.client true = .built (2, 0) (7, 0) ∧
      s.builds = [(7, (2, 0)), (8, (1, 0))] :=
    ⟨_, reach_of_runLabels sampleHandshakes (admissibleRun_of_labels fun _ _ => trivial) rfl, rfl, rfl,
      rfl⟩
  obtain ⟨hcreated, -, hpeer, -⟩ := (handshakes_pair sampleLayout (fun _ => ()) s hs).2 false (1, 0) (8, 0)
    (by rw [hfalse]; rfl)
  exact ⟨s, hs, hfalse, htrue, hbuilds, hcreated, hpeer⟩

end Rdma
