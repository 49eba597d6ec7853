import Fuyao.Concurrency.Proofs.ProgProofs
import Fuyao.Cpp.Proofs.StringsProofs
import Fuyao.MediaService.RatingHandler
import Mathlib.Algebra.BigOperators.Ring.Finset

/-!
# Proofs: what the Redis aggregates add up to

Each call has a claim: the client it holds, the commands it has issued and the number of replies it has
read. `Tally` says that the value of every key is what the executed commands add up to, and that the
commands of a call are executed in order, with one reply for each. A call that has returned 0 has read
both of its replies, so both of its commands have been executed.
-/

namespace MediaService.Redis

open Cpp Concurrency

/-! ## Claims -/

/-- The client a call holds, the commands it has issued and the number of replies it has read. -/
structure Claim where
  client : Option ℕ
  issued : List Command
  read : ℕ

/-- A call that has not done anything. -/
def Claim.start : Claim := ⟨none, [], 0⟩

/-- What a list of commands adds to a key. -/
def effect (cmds : List Command) (key : Bytes) : Int :=
  (cmds.map fun cmd => if cmd.key = key then cmd.delta else 0).sum

theorem effect_append (cmds cmds' : List Command) (key : Bytes) :
    effect (cmds ++ cmds') key = effect cmds key + effect cmds' key := by
  simp [effect]

section Tally

variable {ι : Type} [Fintype ι] {w w' : Server} {a : ι → Claim} {done : ι → ℕ} {i : ι} {client : ℕ}
  {cmd : Command} {issued : List Command} {read : ℕ}

/-- What the server knows about the claims; `done i` commands of call `i` have been executed. -/
structure Tally (w : Server) (a : ι → Claim) (done : ι → ℕ) : Prop where
  store : ∀ key, w.store key = ∑ i, effect ((a i).issued.take (done i)) key
  done_le : ∀ i, done i ≤ (a i).issued.length
  busy : ∀ i client, (a i).client = some client → w.idle client = false
  pending : ∀ i client, (a i).client = some client →
    (w.conn client).sent ++ (w.conn client).output = (a i).issued.drop (done i)
  replies : ∀ i client, (a i).client = some client →
    (w.conn client).replies.length + (a i).read = done i
  unique : ∀ i j client, (a i).client = some client → (a j).client = some client → i = j
  free : ∀ client, (∀ i, (a i).client ≠ some client) → w.conn client = .empty
  closed : ∀ i, (a i).client = none → done i = (a i).issued.length

theorem tally_initial : Tally .initial (fun _ : ι => .start) fun _ => 0 where
  store key := by simp [Server.initial, effect]
  done_le i := Nat.zero_le _
  busy := by rintro i client ⟨⟩
  pending := by rintro i client ⟨⟩
  replies := by rintro i client ⟨⟩
  unique := by rintro i j client ⟨⟩
  free client _ := rfl
  closed i _ := rfl

variable [DecidableEq ι]

/-- The call that holds a client issues commands on its connection, reads replies or has commands
executed. -/
theorem Tally.transact (h : Tally w a done) (w' : Server) (hi : (a i).client = some client)
    {r : Claim} {n : ℕ} {c : Connection} (hr : r.client = some client)
    (hconn : w'.conn = Function.update w.conn client c)
    (hidle : w'.idle = w.idle) (hpending : c.sent ++ c.output = r.issued.drop n)
    (hreplies : c.replies.length + r.read = n) (hn : n ≤ r.issued.length)
    (hstore : ∀ key, w'.store key + effect ((a i).issued.take (done i)) key =
      w.store key + effect (r.issued.take n) key) :
    Tally w' (Function.update a i r) (Function.update done i n) := by
  have hclient : ∀ j, (Function.update a i r j).client = (a j).client := by
    intro j
    by_cases hj : j = i
    · rw [hj, Function.update_self, hr, hi]
    · rw [Function.update_of_ne hj]
  -- the connections of the others are not this one
  have hother : ∀ j client', j ≠ i → (a j).client = some client' → w'.conn client' = w.conn client' := by
    intro j client' hj hclient'
    rw [hconn, Function.update_of_ne]
    rintro rfl
    exact hj (h.unique j i client' hclient' hi)
  refine ⟨?_, ?_, ?_, ?_, ?_, ?_, ?_, ?_⟩
  · intro key
    have hsum := sum_update_add (fun j => effect ((a j).issued.take (done j)) key) i
      (effect (r.issued.take n) key)
    have hupdate : Function.update (fun j => effect ((a j).issued.take (done j)) key) i
        (effect (r.issued.take n) key) =
        fun j => effect ((Function.update a i r j).issued.take (Function.update done i n j)) key := by
      funext j
      by_cases hj : j = i
      · subst hj
        simp
      · simp [hj]
    rw [hupdate, ← h.store key] at hsum
    beta_reduce at hsum
    have := hstore key
    omega
  · intro j
    by_cases hj : j = i
    · simpa [hj] using hn
    · simpa [hj] using h.done_le j
  · intro j client' hj
    rw [hidle]
    exact h.busy j client' (hclient j ▸ hj)
  · intro j client' hj
    rw [hclient] at hj
    by_cases hji : j = i
    · subst hji
      obtain rfl : client = client' := Option.some.inj (hi.symm.trans hj)
      simpa [hconn] using hpending
    · simpa [hji, hother j client' hji hj] using h.pending j client' hj
  · intro j client' hj
    rw [hclient] at hj
    by_cases hji : j = i
    · subst hji
      obtain rfl : client = client' := Option.some.inj (hi.symm.trans hj)
      simpa [hconn] using hreplies
    · simpa [hji, hother j client' hji hj] using h.replies j client' hj
  · intro j j' client' hj hj'
    exact h.unique j j' client' (hclient j ▸ hj) (hclient j' ▸ hj')
  · intro client' hfree
    have hne : client' ≠ client := by
      rintro rfl
      exact hfree i ((hclient i).trans hi)
    rw [hconn, Function.update_of_ne hne]
    exact h.free client' fun j hj => hfree j ((hclient j).trans hj)
  · intro j hj
    rw [hclient] at hj
    have hji : j ≠ i := by
      rintro rfl
      exact absurd (hj.symm.trans hi) (by simp)
    simpa [hji] using h.closed j hj

/-- The same without the server: nothing is executed. -/
theorem Tally.talk (h : Tally w a done) (hi : (a i).client = some client) {r : Claim} {c : Connection}
    (hr : r.client = some client) (hissued : (a i).issued <+: r.issued)
    (hpending : c.sent ++ c.output = r.issued.drop (done i))
    (hreplies : c.replies.length + r.read = done i) :
    Tally (w.setConn client c) (Function.update a i r) done := by
  have hle := h.done_le i
  have hstep := h.transact (w.setConn client c) hi hr rfl rfl hpending hreplies
    (hle.trans hissued.length_le) ?_
  · simpa using hstep
  · intro key
    obtain ⟨rest, hrest⟩ := hissued
    rw [← hrest, List.take_append_of_le_length hle]
    rfl

/-- A call without a client obtains one that nobody holds. -/
theorem Tally.acquire (h : Tally w a done) (hi : a i = .start) (hidle : w.idle client = true) :
    Tally (w.setIdle client false) (Function.update a i ⟨some client, [], 0⟩) done := by
  have hissued : ∀ j, (Function.update a i ⟨some client, [], 0⟩ j).issued = (a j).issued := by
    intro j
    by_cases hj : j = i
    · simp [hj, hi, Claim.start]
    · simp [hj]
  have hdone : done i = 0 := by simpa [hi, Claim.start] using h.closed i (by simp [hi, Claim.start])
  have hfree : ∀ j, (a j).client ≠ some client := by
    intro j hj
    exact absurd hidle (by simp [h.busy j client hj])
  have hempty : w.conn client = .empty := h.free client hfree
  refine ⟨?_, ?_, ?_, ?_, ?_, ?_, ?_, ?_⟩
  · intro key
    simp only [hissued]
    exact h.store key
  · intro j
    rw [hissued]
    exact h.done_le j
  · intro j client' hj
    by_cases hc : client' = client
    · simp [hc, Server.setIdle]
    · have hji : j ≠ i := by
        rintro rfl
        exact hc (by simpa using hj.symm)
      simpa [Server.setIdle, hc] using h.busy j client' (by simpa [hji] using hj)
  · intro j client' hj
    by_cases hji : j = i
    · subst hji
      obtain rfl : client = client' := by simpa using hj
      simp [Server.setIdle, hempty, Connection.empty]
    · simpa [hji, Server.setIdle] using h.pending j client' (by simpa [hji] using hj)
  · intro j client' hj
    by_cases hji : j = i
    · subst hji
      obtain rfl : client = client' := by simpa using hj
      simp [Server.setIdle, hempty, Connection.empty, hdone]
    · simpa [hji, Server.setIdle] using h.replies j client' (by simpa [hji] using hj)
  · intro j j' client' hj hj'
    by_cases hji : j = i <;> by_cases hji' : j' = i
    · exact hji.trans hji'.symm
    · obtain rfl : client = client' := by simpa [hji] using hj
      exact absurd (by simpa [hji'] using hj') (hfree j')
    · obtain rfl : client = client' := by simpa [hji'] using hj'
      exact absurd (by simpa [hji] using hj) (hfree j)
    · exact h.unique j j' client' (by simpa [hji] using hj) (by simpa [hji'] using hj')
  · intro client' hfree'
    refine h.free client' fun j hj => hfree' j ?_
    have hji : j ≠ i := by
      rintro rfl
      simp [hi, Claim.start] at hj
    simpa [hji] using hj
  · intro j hj
    have hji : j ≠ i := by
      rintro rfl
      simp at hj
    simpa [hji] using h.closed j (by simpa [hji] using hj)

/-- A call that has read all its replies gives its client back. -/
theorem Tally.release (h : Tally w a done) (hi : a i = ⟨some client, issued, issued.length⟩) :
    Tally (w.setIdle client true) (Function.update a i ⟨none, issued, issued.length⟩) done := by
  have hclient : (a i).client = some client := by rw [hi]
  have hissued : ∀ j, (Function.update a i ⟨none, issued, issued.length⟩ j).issued = (a j).issued := by
    intro j
    by_cases hj : j = i
    · simp [hj, hi]
    · simp [hj]
  -- all commands are executed and all replies are read
  have hreplies := h.replies i client hclient
  have hle := h.done_le i
  simp only [hi] at hreplies hle
  have hdone : done i = issued.length := by omega
  have hempty : w.conn client = .empty := by
    have hpending := h.pending i client hclient
    rw [hi, hdone, List.drop_length, List.append_eq_nil_iff] at hpending
    have hnil : (w.conn client).replies = [] := List.eq_nil_of_length_eq_zero (by omega)
    cases hc : w.conn client with
    | mk output sent replies =>
      simp only [hc] at hpending hnil
      rw [hpending.1, hpending.2, hnil]
      rfl
  have hrest : ∀ j client', (Function.update a i ⟨none, issued, issued.length⟩ j).client = some client' →
      j ≠ i ∧ (a j).client = some client' := by
    intro j client' hj
    have hji : j ≠ i := by
      rintro rfl
      simp at hj
    exact ⟨hji, by simpa [hji] using hj⟩
  refine ⟨?_, ?_, ?_, ?_, ?_, ?_, ?_, ?_⟩
  · intro key
    simp only [hissued]
    exact h.store key
  · intro j
    rw [hissued]
    exact h.done_le j
  · intro j client' hj
    obtain ⟨hji, hj⟩ := hrest j client' hj
    have hne : client' ≠ client := by
      rintro rfl
      exact hji (h.unique j i client' hj hclient)
    simpa [Server.setIdle, hne] using h.busy j client' hj
  · intro j client' hj
    obtain ⟨hji, hj⟩ := hrest j client' hj
    simpa [hji, Server.setIdle] using h.pending j client' hj
  · intro j client' hj
    obtain ⟨hji, hj⟩ := hrest j client' hj
    simpa [hji, Server.setIdle] using h.replies j client' hj
  · intro j j' client' hj hj'
    exact h.unique j j' client' (hrest j client' hj).2 (hrest j' client' hj').2
  · intro client' hfree
    by_cases hc : client' = client
    · rw [hc]
      exact hempty
    · refine h.free client' fun j hj => hfree j ?_
      have hji : j ≠ i := by
        rintro rfl
        exact hc (Option.some.inj (hj.symm.trans hclient))
      simpa [hji] using hj
  · intro j hj
    by_cases hji : j = i
    · simpa [hji] using hdone
    · simpa [hji] using h.closed j (by simpa [hji] using hj)

/-- The server executes the next command of a connection: the connection is that of a call, and the
command is the next one of this call. -/
theorem Tally.serve (h : Tally w a done) {rest : List Command} (hsent : (w.conn client).sent = cmd :: rest) :
    ∃ done', Tally (w.execute client cmd rest) a done' := by
  obtain ⟨i, hi⟩ : ∃ i, (a i).client = some client := by
    by_contra hnone
    have hempty := h.free client fun i hi => hnone ⟨i, hi⟩
    rw [hempty] at hsent
    cases hsent
  have hpending := h.pending i client hi
  rw [hsent, List.cons_append] at hpending
  have hlt : done i < (a i).issued.length := by
    by_contra hge
    rw [List.drop_of_length_le (by omega)] at hpending
    cases hpending
  have hcons := List.drop_eq_getElem_cons hlt
  rw [← hpending] at hcons
  obtain ⟨hcmd, hdrop⟩ := List.cons.inj hcons
  refine ⟨Function.update done i (done i + 1), ?_⟩
  have key := h.transact (w.execute client cmd rest) (r := a i) (n := done i + 1) hi hi rfl rfl
    hdrop ?_ hlt ?_
  · simpa using key
  · have := h.replies i client hi
    simp only [List.length_append, List.length_singleton]
    omega
  · intro k
    rw [List.take_succ_eq_append_getElem hlt, effect_append, ← hcmd]
    by_cases hk : cmd.key = k
    · subst hk
      simp [Server.execute, effect]
      omega
    · simp [Server.execute, effect, hk, Function.update_of_ne (Ne.symm hk)]

end Tally

/-! ## The calls -/

section Calls

variable {ι : Type} [Fintype ι] [DecidableEq ι]

/-- The ghost state of the calls is their claims and how many of their commands have been executed; a
call knows its own claim. -/
def ratingLogic : Logic ι Op Op.Res Crash Int Server Choice Env ((ι → Claim) × (ι → ℕ)) Claim where
  machine := machine
  adm _ _ := True
  good _ := True
  inv w _ a := Tally w a.1 a.2
  view i a := a.1 i

variable {i : ι} {T : List (RatingEvent ι)} {client : ℕ} {issued : List Command} {read : ℕ} {v : Claim}

/-- An operation is fine if it keeps the tally with a new claim of its call. -/
theorem performs_of_tally {o : Op} {K : o.Res → Claim → List (RatingEvent ι) → Prop}
    (h : ∀ (w : Server) (a : ι → Claim) (done : ι → ℕ) ch r w', Tally w a done → a i = v →
      w.exec o ch = some (r, w') → ∃ v', Tally w' (Function.update a i v') done ∧ ∀ T', K r v' T') :
    ratingLogic.Performs i o v T K := by
  intro c a ch r w' _ hinv hv _ _ hex _
  obtain ⟨v', htally, hK⟩ := h c.shared a.1 a.2 ch r w' hinv hv hex
  refine ⟨(Function.update a.1 i v', a.2), htally, ?_, ?_⟩
  · intro j hj
    exact Function.update_of_ne hj ..
  · simpa [ratingLogic] using hK _

theorem performs_invoke {rating : Rating} {K : Int → Claim → List (RatingEvent ι) → Prop}
    (hK : ∀ ret T', K ret v T') : ratingLogic.Performs i (.invoke rating) v T K := by
  refine performs_of_tally fun w a done ch r w' h hv hex => ⟨v, ?_, hK r⟩
  obtain ⟨-, rfl⟩ := Prod.mk.inj (Option.some.inj hex)
  rwa [← hv, Function.update_eq_self]

theorem performs_pop {K : Option ℕ → Claim → List (RatingEvent ι) → Prop}
    (hnone : ∀ T', K none .start T') (hsome : ∀ client T', K (some client) ⟨some client, [], 0⟩ T') :
    ratingLogic.Performs i .pop .start T K := by
  refine performs_of_tally fun w a done ch r w' h hv hex => ?_
  simp only [Server.exec] at hex
  split at hex
  · obtain ⟨rfl, rfl⟩ := Prod.mk.inj (Option.some.inj hex)
    refine ⟨.start, ?_, hnone⟩
    rwa [← hv, Function.update_eq_self]
  next client _ =>
    obtain ⟨hidle, hex⟩ := Option.ite_none_right_eq_some.mp hex
    obtain ⟨rfl, rfl⟩ := Prod.mk.inj (Option.some.inj hex)
    exact ⟨_, h.acquire hv hidle, hsome client⟩

theorem performs_appendCommand {cmd : Command} {K : Unit → Claim → List (RatingEvent ι) → Prop}
    (hK : ∀ T', K () ⟨some client, issued ++ [cmd], read⟩ T') :
    ratingLogic.Performs i (.appendCommand client cmd) ⟨some client, issued, read⟩ T K := by
  refine performs_of_tally fun w a done ch r w' h hv hex => ⟨_, ?_, hK⟩
  obtain ⟨-, rfl⟩ := Prod.mk.inj (Option.some.inj hex)
  have hi : (a i).client = some client := by rw [hv]
  have hpending := h.pending i client hi
  have hle := h.done_le i
  simp only [hv] at hpending hle
  refine h.talk hi rfl ?_ ?_ ?_
  · rw [hv]
    exact List.prefix_append _ _
  · rw [List.drop_append_of_le_length hle, ← hpending, List.append_assoc]
  · simpa [hv] using h.replies i client hi

theorem performs_bufferWrite {K : Bool → Claim → List (RatingEvent ι) → Prop}
    (hv : v.client = some client) (hK : ∀ written T', K written v T') :
    ratingLogic.Performs i (.bufferWrite client) v T K := by
  refine performs_of_tally fun w a done ch r w' h hav hex => ⟨v, ?_, hK r⟩
  obtain ⟨-, rfl⟩ := Prod.mk.inj (Option.some.inj hex)
  subst hav
  refine h.talk hv hv (List.prefix_refl _) ?_ (h.replies i client hv)
  -- what has been written moves from the output buffer to the server
  rw [List.append_assoc, List.take_append_drop]
  exact h.pending i client hv

theorem performs_readReply {K : Option Int → Claim → List (RatingEvent ι) → Prop}
    (hnone : ∀ T', K none ⟨some client, issued, read⟩ T')
    (hsome : ∀ reply T', K (some reply) ⟨some client, issued, read + 1⟩ T') :
    ratingLogic.Performs i (.readReply client) ⟨some client, issued, read⟩ T K := by
  refine performs_of_tally fun w a done ch r w' h hv hex => ?_
  have hi : (a i).client = some client := by rw [hv]
  simp only [Server.exec] at hex
  split at hex
  · split at hex
    · cases hex
    next reply replies heq =>
      obtain ⟨rfl, rfl⟩ := Prod.mk.inj (Option.some.inj hex)
      refine ⟨_, ?_, hsome reply⟩
      have hreplies := h.replies i client hi
      simp only [hv, heq, List.length_cons] at hreplies
      refine h.talk hi rfl ?_ ?_ ?_
      · rw [hv]
      · simpa [hv] using h.pending i client hi
      · simp only
        omega
  · obtain ⟨rfl, rfl⟩ := Prod.mk.inj (Option.some.inj hex)
    refine ⟨_, ?_, hnone⟩
    rwa [← hv, Function.update_eq_self]

theorem performs_push {K : Unit → Claim → List (RatingEvent ι) → Prop}
    (hK : ∀ T', K () ⟨none, issued, issued.length⟩ T') :
    ratingLogic.Performs i (.push client) ⟨some client, issued, issued.length⟩ T K := by
  refine performs_of_tally fun w a done ch r w' h hv hex => ⟨_, ?_, hK⟩
  obtain ⟨-, rfl⟩ := Prod.mk.inj (Option.some.inj hex)
  exact h.release hv

/-- The commands of a call. -/
def commands (val : MovieId) : List Command :=
  [.incrby (keySum val.movie_id) (formatArgument ⟨val.req_id, val.rating⟩), .incr (keyNum val.movie_id)]

/-- `GetReply` reads a reply or yields a null pointer. -/
theorem getReply_wp {Q : Except Crash (Option Int) → Claim → List (RatingEvent ι) → Prop}
    (hnone : ∀ T', Q (.ok none) ⟨some client, issued, read⟩ T')
    (hsome : ∀ reply T', Q (.ok (some reply)) ⟨some client, issued, read + 1⟩ T') :
    ratingLogic.wp i (getReply client) Q ⟨some client, issued, read⟩ T := by
  refine performs_bufferWrite rfl fun written T' => ?_
  cases written with
  | false => exact hnone T'
  | true => exact performs_readReply hnone hsome

/-- A call that returns 0 has issued its two commands, has read both replies and holds no client. -/
theorem uploadRating_wp (val : MovieId) :
    ratingLogic.wp i (uploadRating val)
      (fun out v _ => out = .ok 0 → v = ⟨none, commands val, 2⟩) .start T := by
  refine performs_invoke fun ret T' => ?_
  by_cases hret : ret = 0
  · subst hret
    refine performs_pop ?_ ?_
    · rintro T' ⟨⟩
    · intro client T'
      refine performs_appendCommand fun T' => performs_appendCommand fun T' => ?_
      -- a null reply is dereferenced after the second reply has been asked for
      refine Logic.wp_bind (p := getReply client) (getReply_wp ?_ ?_)
      · intro T'
        refine Logic.wp_bind (p := getReply client) (getReply_wp ?_ ?_)
        · rintro T' ⟨⟩
        · rintro reply T' ⟨⟩
      · intro reply T'
        refine Logic.wp_bind (p := getReply client) (getReply_wp ?_ ?_)
        · rintro T' ⟨⟩
        · intro reply' T'
          exact performs_push fun T' _ => rfl
  · change ratingLogic.wp i (if ret ≠ 0 then _ else _) _ _ _
    rw [if_pos hret]
    rintro ⟨⟩

theorem serve_tally {w w' : Server} {a : ι → Claim} {done : ι → ℕ} {e : Env} (h : Tally w a done)
    (henv : Server.env e w = some w') : ∃ done', Tally w' a done' := by
  obtain ⟨client⟩ := e
  simp only [Server.env] at henv
  split at henv
  · cases henv
  next cmd rest hsent =>
    obtain rfl := Option.some.inj henv
    exact h.serve hsent

/-! ## The aggregates -/

theorem keySum_inj {m m' : CString 128} : keySum m = keySum m' ↔ m = m' := by
  constructor
  · intro h
    exact CString.ext (List.append_cancel_right h)
  · rintro rfl
    rfl

theorem keyNum_inj {m m' : CString 128} : keyNum m = keyNum m' ↔ m = m' := by
  constructor
  · intro h
    exact CString.ext (List.append_cancel_right h)
  · rintro rfl
    rfl

theorem keySum_ne_keyNum (m m' : CString 128) : keySum m ≠ keyNum m' := by
  intro h
  have hsuffix := (List.append_inj' h (by decide)).2
  exact absurd hsuffix (by decide)

theorem effect_commands_keySum (val : MovieId) (m : CString 128) :
    effect (commands val) (keySum m) = if val.movie_id = m then val.req_id.toInt32.toInt else 0 := by
  simp [effect, commands, Command.key, Command.delta, keySum_inj, (keySum_ne_keyNum _ _).symm,
    formatArgument]

theorem effect_commands_keyNum (val : MovieId) (m : CString 128) :
    effect (commands val) (keyNum m) = if val.movie_id = m then 1 else 0 := by
  simp [effect, commands, Command.key, Command.delta, keyNum_inj, keySum_ne_keyNum]

/-- Once all calls have returned 0, every key holds what the commands of all calls add to it. -/
theorem store_of_returned {calls : ι → MovieId} {c : RatingConfig ι} (hc : Reachable calls c)
    (hret : ∀ i, (c.threads i).outcome = some (.ok 0)) (key : Bytes) :
    c.shared.store key = ∑ i, effect (commands (calls i)) key := by
  obtain ⟨⟨a, done⟩, htally, hth⟩ := ratingLogic.sound (fun _ => .start, fun _ => 0)
    tally_initial (fun i => uploadRating_wp (calls i))
    (fun c a e w' hinv _ henv => by
      obtain ⟨done', htally⟩ := serve_tally hinv henv
      exact ⟨(a.1, done'), htally, fun _ => rfl⟩) hc fun _ _ => trivial
  have htally : Tally c.shared a done := htally
  rw [htally.store key]
  refine Finset.sum_congr rfl fun i _ => ?_
  obtain ⟨T, -, hwp⟩ := hth i
  have hclaim : a i = ⟨none, commands (calls i), 2⟩ := Logic.wp_outcome hwp (hret i) rfl
  have hdone := htally.closed i (by rw [hclaim])
  rw [hdone, List.take_length, hclaim]

/-- For every finite set of calls, every interleaving of their steps and whatever fails, once all calls
have returned 0: the aggregates of every movie are the sum and the number of the ratings uploaded for it
if and only if, for every movie, the lower halves of the request ids add up to what the ratings add
up to. -/
theorem rating_aggregates_exact_iff (calls : ι → MovieId) {c : RatingConfig ι} (hc : Reachable calls c)
    (hret : ∀ i, (c.threads i).outcome = some (.ok 0)) :
    (∀ m, c.shared.store (keySum m) = ∑ i with (calls i).movie_id = m, (calls i).rating.toInt ∧
      c.shared.store (keyNum m) = ({i | (calls i).movie_id = m} : Finset ι).card) ↔
    ∀ m, ∑ i with (calls i).movie_id = m, (calls i).req_id.toInt32.toInt =
      ∑ i with (calls i).movie_id = m, (calls i).rating.toInt := by
  have hsum : ∀ m, c.shared.store (keySum m) =
      ∑ i with (calls i).movie_id = m, (calls i).req_id.toInt32.toInt := by
    intro m
    rw [store_of_returned hc hret, Finset.sum_filter]
    simp only [effect_commands_keySum]
  have hnum : ∀ m, c.shared.store (keyNum m) = ({i | (calls i).movie_id = m} : Finset ι).card := by
    intro m
    rw [store_of_returned hc hret]
    simp only [effect_commands_keyNum]
    rw [Finset.sum_boole]
  constructor
  · intro h m
    rw [← hsum m]
    exact (h m).1
  · intro h m
    exact ⟨(hsum m).trans (h m), hnum m⟩

end Calls

/-- The id of a movie. -/
def sampleMovieId : CString 128 := ⟨ascii "m8", by decide, by decide⟩

/-- Two uploads for one movie whose request ids happen to be the ratings. -/
def sampleUploads : Bool → MovieId
  | false => ⟨5, sampleMovieId, 5⟩
  | true => ⟨3, sampleMovieId, 3⟩

/-- A call that nothing fails for, with the given client. -/
def smooth (client : ℕ) : Choice := ⟨0, some client, true, 0⟩

/-- The commands of the second call are executed between the two commands of the first one. -/
def sampleRatingRun : List (Label Bool Choice Env) :=
  [.run false (smooth 0), .run false (smooth 0), .run false (smooth 0), .run false (smooth 0),
    .run false (smooth 0), .env (.serve 0),
    .run true (smooth 1), .run true (smooth 1), .run true (smooth 1), .run true (smooth 1),
    .run true (smooth 1), .env (.serve 1), .run true (smooth 1), .env (.serve 1),
    .env (.serve 0), .run false (smooth 0), .run false (smooth 0), .run false (smooth 0),
    .run false (smooth 0), .run true (smooth 1), .run true (smooth 1), .run true (smooth 1)]

theorem rating_aggregates_exact_iff_sample :
    ∃ c, Reachable sampleUploads c ∧ (∀ i, (c.threads i).outcome = some (.ok 0)) ∧
      c.shared.store (keySum sampleMovieId) = ∑ i, (sampleUploads i).rating.toInt := by
  obtain ⟨c, hc, hret⟩ :
      ∃ c, Reachable sampleUploads c ∧ ∀ i, (c.threads i).outcome = some (.ok 0) :=
    ⟨_, reach_of_runLabels sampleRatingRun (admissibleRun_of_labels fun _ _ => trivial) rfl,
      fun i => by cases i <;> rfl⟩
  refine ⟨c, hc, hret, ?_⟩
  have hexact := ((rating_aggregates_exact_iff sampleUploads hc hret).mpr fun m =>
    Finset.sum_congr rfl fun i _ => by cases i <;> rfl) sampleMovieId
  exact hexact.1

/-- The request 7 uploads the rating 5, and the sum of the movie becomes 7. -/
theorem rating_sum_counts_request_id :
    ∃ c, Reachable (fun _ : Unit => ⟨7, sampleMovieId, 5⟩) c ∧
      (∀ i, (c.threads i).outcome = some (.ok 0)) ∧
      c.shared.store (keySum sampleMovieId) = 7 ∧ c.shared.store (keyNum sampleMovieId) = 1 := by
  refine ⟨_, reach_of_runLabels
    [.run () (smooth 0), .run () (smooth 0), .run () (smooth 0), .run () (smooth 0),
      .run () (smooth 0), .env (.serve 0), .env (.serve 0), .run () (smooth 0), .run () (smooth 0),
      .run () (smooth 0), .run () (smooth 0)]
    (admissibleRun_of_labels fun _ _ => trivial) rfl, fun _ => rfl, ?_, ?_⟩
  · decide
  · decide

end MediaService.Redis
