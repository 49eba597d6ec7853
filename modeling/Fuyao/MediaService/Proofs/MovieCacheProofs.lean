import Fuyao.MediaService.MovieCache
import Fuyao.MediaService.Proofs.CallersProofs

/-!
# Proofs: the cached movie ids agree with the database

The cache is filled by reading and then setting, without any synchronisation. It stays coherent since
documents are never deleted: an id that was once found under a title is for ever the id of a document
with this title. The keys of the two services are disjoint, and different titles have different keys.
-/

namespace MediaService

open Cpp Concurrency

section Cache

variable {ι : Type} {calls : ι → MovieCall} {i : ι} {T T' : List (ServiceEvent ι)}

theorem Known.mono {doc : Movie} (h : Known doc T) (hT : T <+: T') : Known doc T' := by
  obtain ⟨e, he, hdoc⟩ := h
  exact ⟨e, hT.subset he, hdoc⟩

theorem MovieInv.mem_of_known {w : World} (h : MovieInv calls w T) {doc : Movie} (hdoc : Known doc T) :
    doc ∈ w.movies := by
  obtain ⟨e, he, hmem⟩ := hdoc
  exact h.grows e he doc hmem

/-- What an operation leaves to show. -/
theorem MovieInv.step {w w' : World} (h : MovieInv calls w T) {o : Op} {ch : Choice} {res : o.Res}
    (hex : w.exec o ch = some (res, w'))
    (hcached : ∀ (title : CString 128) value, w'.memcached.get (keyTitle title) = some value →
      w.memcached.get (keyTitle title) = some value ∨ ⟨title.bytes, value⟩ ∈ w.movies)
    (hids : ∀ doc, o = .insertMovie doc → ∃ s : CString 128, doc.movie_id = s.bytes)
    (hsent : ∀ val, calls i = .uploadMovieId val → ∀ msg, o = .invoke (.exp02UploadMovieId3 msg) →
      msg.req_id = val.req_id ∧ ⟨val.title.bytes, msg.movie_id.bytes⟩ ∈ w.movies) :
    MovieInv calls w' (T ++ [⟨i, o, res, w, w'⟩]) := by
  have hsub : ∀ doc ∈ w.movies, doc ∈ w'.movies := fun doc => World.exec_movies_subset hex
  refine ⟨?_, ?_, ?_, ?_⟩
  · intro title value hget
    rcases hcached title value hget with hold | hnew
    · exact hsub _ (h.cached title value hold)
    · exact hsub _ hnew
  · intro doc hdoc
    rcases World.exec_movies_cases hex hdoc with hdoc | hop
    · exact h.ids doc hdoc
    · exact hids doc hop
  · intro e he doc hdoc
    rcases List.mem_append.mp he with he | he
    · exact hsub doc (h.grows e he doc hdoc)
    · obtain rfl := List.mem_singleton.mp he
      exact hdoc
  · intro e he val hval msg hmsg
    rcases List.mem_append.mp he with he | he
    · exact h.sent e he val hval msg hmsg
    · obtain rfl := List.mem_singleton.mp he
      exact hsent val hval msg hmsg

theorem keeps_of_tame {o : Op} (ho : Tame o) : (movieLogic calls).Keeps i o := by
  intro c a ch res w' hinv hex
  refine MovieInv.step hinv hex (fun title value hget => .inl ?_) ho.2.2
    fun val _ msg hop => absurd hop (ho.2.1 msg)
  by_cases hkey : o.key = some (keyTitle title)
  · obtain rfl := ho.1 title hkey
    obtain ⟨rfl, -⟩ := World.exec_get hex
    exact hget
  · rwa [World.exec_get_of_ne hex hkey] at hget

/-! ## Operations that are tame -/

theorem tame_of_isLocal {o : Op} (ho : o.isLocal = true) : Tame o := by
  refine ⟨?_, ?_, ?_⟩
  · intro title hkey
    rw [Op.key_eq_none_of_isLocal ho] at hkey
    cases hkey
  · intro msg hop
    rw [hop] at ho
    cases ho
  · intro doc hop
    rw [hop] at ho
    cases ho

/-- The compose-review service touches no key of a title. -/
theorem tame_of_upload {val : Review} {op : UploadOp} {o : Op} (ho : UploadTouches val op o) :
    Tame o := by
  obtain ⟨key, hkey, hcomp⟩ := ho.exists_key
  refine ⟨?_, ?_, ?_⟩
  · intro title htitle
    rw [hkey] at htitle
    obtain rfl := Option.some.inj htitle
    exact absurd hcomp (not_isComposeKey_keyTitle _ title)
  · intro msg hop
    rw [hop] at hkey
    cases hkey
  · intro doc hop
    rw [hop] at hkey
    cases hkey

theorem tame_invoke {f : Invocation} (hf : ∀ msg, f ≠ .exp02UploadMovieId3 msg) : Tame (.invoke f) :=
  ⟨fun _ hkey => (by cases hkey), fun msg hop => hf msg (Op.invoke.inj hop), fun _ hop => by cases hop⟩

/-! ## `UploadMovieId` -/

/-- What is read from the cache is the id of a document with the title. -/
theorem performs_getTitle (title : CString 128)
    {K : Option (Option Bytes) → Unit → List (ServiceEvent ι) → Prop}
    (hK : ∀ res T', T <+: T' → (∀ value, res = some (some value) → Known ⟨title.bytes, value⟩ T') →
      K res () T') :
    (movieLogic calls).Performs i (.get (keyTitle title)) () T K := by
  have htame : Tame (.get (keyTitle title)) := by
    refine ⟨fun title' hkey => ?_, fun _ hop => (by cases hop), fun _ hop => by cases hop⟩
    exact congrArg Op.get (Option.some.inj hkey)
  intro c a ch res w' hT hinv _ _ _ hex _
  refine ⟨(), keeps_of_tame htame c a ch res w' hinv hex, fun _ _ => rfl, ?_⟩
  refine hK res _ (hT.trans (List.prefix_append _ _)) fun value hvalue => ?_
  obtain ⟨rfl, hres | ⟨hres, -⟩⟩ := World.exec_get hex
  · have hget : c.shared.memcached.get (keyTitle title) = some value :=
      Option.some.inj (hres.symm.trans hvalue)
    exact ⟨_, List.mem_append_right _ (List.mem_singleton_self _), hinv.cached title value hget⟩
  · rw [hres] at hvalue
    cases hvalue

/-- What is found in the collection is the id of a document with the title. -/
theorem performs_findMovie (title : Bytes)
    {K : Option Movie → Unit → List (ServiceEvent ι) → Prop}
    (hK : ∀ res T', T <+: T' → (∀ doc, res = some doc → Known ⟨title, cStr doc.movie_id⟩ T') →
      K res () T') :
    (movieLogic calls).Performs i (.findMovie title) () T K := by
  intro c a ch res w' hT hinv _ _ _ hex _
  refine ⟨(), keeps_of_tame (tame_of_isLocal rfl) c a ch res w' hinv hex, fun _ _ => rfl, ?_⟩
  refine hK res _ (hT.trans (List.prefix_append _ _)) fun doc hdoc => ?_
  obtain ⟨rfl, hfound⟩ := World.exec_findMovie hex
  obtain ⟨hmem, rfl⟩ := hfound doc hdoc
  obtain ⟨s, hs⟩ := hinv.ids doc hmem
  have hid : cStr doc.movie_id = doc.movie_id := by
    rw [hs]
    exact cStr_eq_self s.no_nul
  rw [hid]
  exact ⟨_, List.mem_append_right _ (List.mem_singleton_self _), hmem⟩

/-- The lookup yields the id of a document with the title. -/
theorem lookupMovieId_wp (title : CString 128) :
    (movieLogic calls).wp i (lookupMovieId title)
      (fun out _ T' => ∀ id, out = .ok (some id) → Known ⟨title.bytes, id⟩ T') () T := by
  have hlocal : ∀ {o : Op}, o.isLocal = true → (movieLogic calls).Keeps i o :=
    fun ho => keeps_of_tame (tame_of_isLocal ho)
  have hnone : ∀ T', (movieLogic calls).wp i (return none : Service (Option Bytes))
      (fun out _ T' => ∀ id, out = .ok (some id) → Known ⟨title.bytes, id⟩ T') () T' := by
    rintro T' id ⟨⟩
  refine wp_ask ((hlocal rfl).performs ?_)
  rintro (_ | _) T₁ -
  · exact hnone T₁
  refine wp_ask (performs_getTitle title fun res T₂ _ hknown => ?_)
  rcases res with _ | _ | value
  · exact wp_ask ((hlocal rfl).performs fun _ T₃ _ => hnone T₃)
  · -- a miss: the collection is asked
    refine wp_ask ((hlocal rfl).performs fun _ T₃ _ => ?_)
    refine wp_ask ((hlocal rfl).performs ?_)
    rintro (_ | _) T₄ -
    · exact hnone T₄
    refine wp_ask ((hlocal rfl).performs ?_)
    rintro (_ | _) T₅ -
    · exact wp_ask ((hlocal rfl).performs fun _ T₆ _ => hnone T₆)
    refine wp_ask (performs_findMovie title.bytes fun doc T₆ _ hfound => ?_)
    refine wp_ask ((hlocal rfl).performs fun _ T₇ hT₇ => ?_)
    intro id hid
    cases doc with
    | none => cases hid
    | some doc =>
      obtain rfl : cStr doc.movie_id = id := by simpa using hid
      exact (hfound doc rfl).mono hT₇
  · refine wp_ask ((hlocal rfl).performs fun _ T₃ hT₃ => ?_)
    rintro id ⟨⟩
    exact (hknown value rfl).mono hT₃

/-- Caching an id that is known keeps the cache coherent. -/
theorem cacheMovieId_wp {title : CString 128} {id : Bytes} (hknown : Known ⟨title.bytes, id⟩ T) :
    (movieLogic calls).wp i (cacheMovieId title id) (fun _ _ _ => True) () T := by
  refine wp_ask ((keeps_of_tame (tame_of_isLocal rfl)).performs ?_)
  rintro (_ | _) T₁ hT₁
  · trivial
  refine wp_ask ?_
  intro c a ch res w' hT hinv _ _ _ hex _
  have hset : c.shared.exec (.set (keyTitle title) id 0) ch = some (res, w') := hex
  refine ⟨(), ?_, fun _ _ => rfl, ?_⟩
  · refine MovieInv.step hinv hset (fun title' value hget => ?_) (fun _ hop => by cases hop)
      fun _ _ _ hop => by cases hop
    have hdoc := hinv.mem_of_known ((hknown.mono hT₁).mono hT)
    by_cases htitle : title' = title
    · subst htitle
      obtain rfl | rfl := World.exec_effect hset
      · exact .inl hget
      · obtain rfl : id = value := by simpa [World.effect] using hget
        exact .inr hdoc
    · have hkey : (Op.set (keyTitle title) id 0).key ≠ some (keyTitle title') := fun h =>
        htitle (keyTitle_injective (Option.some.inj h)).symm
      rw [World.exec_get_of_ne hset hkey] at hget
      exact .inl hget
  · exact wp_ask ((keeps_of_tame (tame_of_isLocal rfl)).performs fun _ _ _ => trivial)

/-- A call of `UploadMovieId` sends only an id that belongs to its title. -/
theorem uploadMovieId_wp {val : Title} (hi : calls i = .uploadMovieId val) :
    (movieLogic calls).wp i (uploadMovieId .anyRuntime val) (fun _ _ _ => True) () T := by
  refine Logic.wp_bind (Logic.wp_mono (lookupMovieId_wp val.title) ?_)
  rintro (e | _ | id) _ T₁ - hknown
  · trivial
  · trivial
  refine Logic.wp_bind (Logic.wp_mono (cacheMovieId_wp (hknown id rfl)) ?_)
  rintro (e | _ | _) _ T₂ hT₂ -
  · trivial
  · trivial
  refine Logic.wp_ofExcept (fun s hs => ?_) fun _ _ => trivial
  refine wp_ask ?_
  intro c a ch res w' hT hinv _ _ _ hex _
  have hinvoke : c.shared.exec (.invoke (.exp02UploadMovieId3 ⟨val.req_id, s, 0⟩)) ch = some (res, w') :=
    hex
  refine ⟨(), MovieInv.step hinv hinvoke ?_ (fun _ hop => by cases hop) ?_, fun _ _ => rfl, ?_⟩
  · intro title value hget
    have hkey : (Op.invoke (.exp02UploadMovieId3 ⟨val.req_id, s, 0⟩)).key ≠ some (keyTitle title) := by
      simp [Op.key]
    rw [World.exec_get_of_ne hinvoke hkey] at hget
    exact .inl hget
  · intro val' hval' msg hop
    obtain rfl : val = val' := by simpa using hi.symm.trans hval'
    obtain rfl := Invocation.exp02UploadMovieId3.inj (Op.invoke.inj hop)
    have hdoc := hinv.mem_of_known (((hknown id rfl).mono hT₂).mono hT)
    obtain ⟨t, ht⟩ := hinv.ids _ hdoc
    have hst : t = s := by
      rw [show id = t.bytes from ht, strcpy_bytes] at hs
      exact Except.ok.inj hs
    refine ⟨rfl, ?_⟩
    rw [← hst, ← show id = t.bytes from ht]
    exact hdoc
  · refine wp_ask ((keeps_of_tame (tame_invoke (by simp))).performs fun ret2 T₃ _ => ?_)
    by_cases hret : res ≠ 0 ∨ ret2 ≠ 0
    · simp only [hret, if_true]; trivial
    · simp only [hret, if_false]; trivial

/-! ## Runs -/

/-- Every call keeps the cache coherent. -/
theorem movieCalls_wp (i : ι) :
    (movieLogic calls).wp i (movieCalls calls i) (fun _ _ _ => True) () T := by
  have htame : ∀ {p : Service Int}, p.Uses Tame (fun _ => True) →
      (movieLogic calls).wp i p (fun _ _ _ => True) () T := by
    intro p hp
    exact Logic.wp_mono (Logic.wp_of_uses hp fun _ ho => keeps_of_tame ho) fun _ _ _ _ _ => trivial
  unfold movieCalls
  cases hi : calls i with
  | registerMovieId val =>
    refine htame (registerMovieId_uses (fun _ => tame_of_isLocal) ?_)
    refine ⟨fun _ hkey => (by cases hkey), fun _ hop => (by cases hop), fun doc hop => ?_⟩
    obtain rfl := Op.insertMovie.inj hop
    exact ⟨val.movie_id, rfl⟩
  | uploadMovieId val => exact uploadMovieId_wp hi
  | upload val op =>
    exact htame (upload_uses (fun _ => tame_of_isLocal) val op (fun _ => tame_of_upload)
      fun review _ => uses_ask (tame_invoke (by simp)))

/-- The keys a call touches: the movie service only that of its title, the compose-review service only
keys of requests. -/
theorem movieCalls_uses (calls : ι → MovieCall) (i : ι) :
    (movieCalls calls i).Uses (fun o => ∀ key, o.key = some key →
      if (calls i).isUpload then ∃ r, IsComposeKey r key else ∃ title, key = keyTitle title)
      fun _ => True := by
  have hlocal : ∀ o : Op, o.isLocal = true → ∀ key, o.key = some key →
      if (calls i).isUpload then ∃ r, IsComposeKey r key else ∃ title, key = keyTitle title := by
    intro o ho key hkey
    rw [Op.key_eq_none_of_isLocal ho] at hkey
    cases hkey
  unfold movieCalls
  cases hi : calls i with
  | registerMovieId val =>
    rw [hi] at hlocal
    exact registerMovieId_uses hlocal fun key hkey => by cases hkey
  | uploadMovieId val =>
    rw [hi] at hlocal
    exact uploadMovieId_uses hlocal (fun key hkey => ⟨val.title, (Option.some.inj hkey).symm⟩)
      (fun _ key hkey => ⟨val.title, (Option.some.inj hkey).symm⟩)
      (fun movie_id => uses_ask (o := .invoke _) fun key hkey => by cases hkey)
      (uses_ask (o := .invoke _) fun key hkey => by cases hkey)
  | upload val op =>
    rw [hi] at hlocal
    refine upload_uses hlocal val op (fun o ho key hkey => ?_)
      fun review _ => uses_ask (o := .invoke _) fun key hkey => by cases hkey
    obtain ⟨key', hkey', hcomp⟩ := ho.exists_key
    obtain rfl := Option.some.inj (hkey.symm.trans hkey')
    exact ⟨_, hcomp⟩

variable [DecidableEq ι] {w₀ : World} {c : ServiceConfig ι}

/-- In every run the cache agrees with the collection. -/
theorem movieInv_of_reachable (hempty : ∀ key, w₀.memcached.get key = none)
    (hids : ∀ doc ∈ w₀.movies, ∃ s : CString 128, doc.movie_id = s.bytes)
    {adm : ServiceLabel ι → Prop} (hc : ReachableFrom w₀ adm (movieCalls calls) c) :
    MovieInv calls c.shared c.trace := by
  have hinv : (movieLogic calls).inv w₀ [] () := by
    refine ⟨fun title value hget => ?_, hids, by simp, by simp⟩
    rw [hempty] at hget
    cases hget
  have henv : ∀ (c : ServiceConfig ι) a e w', (movieLogic calls).inv c.shared c.trace a → True →
      World.env e c.shared = some w' → ∃ a', (movieLogic calls).inv w' c.trace a' ∧
        ∀ j, (movieLogic calls).view j a' = (movieLogic calls).view j a := by
    intro c a e w' h _ he
    have hmovies : w'.movies = c.shared.movies := World.env_movies he
    refine ⟨(), ⟨fun title value hget => ?_, ?_, ?_, h.sent⟩, fun _ => rfl⟩
    · rw [hmovies]
      exact h.cached title value (World.env_get he hget)
    · rw [hmovies]
      exact h.ids
    · rw [hmovies]
      exact h.grows
  obtain ⟨_, h, -⟩ := Logic.sound (P := movieLogic calls) () hinv (fun i => movieCalls_wp i) henv
    (hc.mono fun _ _ _ => trivial) fun _ _ => trivial
  exact h

/-- Operations may fail without effect, any key may be evicted at any time, and calls of both services
interleave. What is cached under a title is the id of a document with exactly this title; the
compose-review service touches no key of a title, and the movie service none of a request; and a movie
id that is sent on belongs, when it is sent, to a document with the requested title. -/
theorem movie_cache_coherent (hempty : ∀ key, w₀.memcached.get key = none)
    (hids : ∀ doc ∈ w₀.movies, ∃ s : CString 128, doc.movie_id = s.bytes)
    (hc : ReachableFrom w₀ Evicting (movieCalls calls) c) :
    (∀ (title : CString 128) value, c.shared.memcached.get (base64Encode title.bytes) = some value →
      ∃ doc ∈ c.shared.movies, doc.title = title.bytes ∧ doc.movie_id = value) ∧
    (∀ e ∈ c.trace, (calls e.thread).isUpload = true →
      ∀ title : CString 128, e.op.key ≠ some (base64Encode title.bytes)) ∧
    (∀ e ∈ c.trace, (calls e.thread).isUpload = false →
      ∀ r key, IsComposeKey r key → e.op.key ≠ some key) ∧
    ∀ e ∈ c.trace, ∀ val, calls e.thread = .uploadMovieId val →
      ∀ msg, e.op = .invoke (.exp02UploadMovieId3 msg) →
        ∃ doc ∈ e.pre.movies, doc.title = val.title.bytes ∧ doc.movie_id = msg.movie_id.bytes := by
  have hinv := movieInv_of_reachable hempty hids hc
  have htouch := trace_uses (movieCalls_uses calls) hc
  refine ⟨fun title value hget => ⟨_, hinv.cached title value hget, rfl, rfl⟩, ?_, ?_, ?_⟩
  · intro e he hup title hkey
    have hcomp := htouch e he _ hkey
    rw [if_pos hup] at hcomp
    obtain ⟨r, hcomp⟩ := hcomp
    exact not_isComposeKey_keyTitle r title hcomp
  · intro e he hup r key hcomp hkey
    have htitle := htouch e he _ hkey
    rw [if_neg (by simp [hup])] at htitle
    obtain ⟨title, rfl⟩ := htitle
    exact not_isComposeKey_keyTitle r title hcomp
  · intro e he val hval msg hop
    exact ⟨_, (hinv.sent e he val hval msg hop).2, rfl, rfl⟩

/-- A movie is registered and its id is uploaded, while another service uploads a rating. -/
def sampleMovieCalls : Fin 3 → MovieCall
  | 0 => .registerMovieId ⟨7, ⟨ascii "Up", by decide, by decide⟩, ⟨ascii "m7", by decide, by decide⟩⟩
  | 1 => .uploadMovieId ⟨7, ⟨ascii "Up", by decide, by decide⟩, 5⟩
  | 2 => .upload { Review.zero with req_id := 7, rating := 5 } .uploadRating

theorem movie_cache_coherent_sample :
    ∃ c, ReachableFrom World.empty Evicting (movieCalls sampleMovieCalls) c ∧
      c.shared.memcached.get (base64Encode (ascii "Up")) = some (ascii "m7") ∧
      ∃ doc ∈ c.shared.movies, doc.title = ascii "Up" ∧ doc.movie_id = ascii "m7" := by
  obtain ⟨c, hc, hget⟩ :
      ∃ c, ReachableFrom World.empty Evicting (movieCalls sampleMovieCalls) c ∧
        c.shared.memcached.get (base64Encode (ascii "Up")) = some (ascii "m7") :=
    ⟨_, reachable_of_labels (okRun (List.replicate 5 0 ++ List.replicate 3 2 ++ List.replicate 10 1))
      (by decide) rfl, rfl⟩
  exact ⟨c, hc, hget, (movie_cache_coherent (fun _ => rfl) (by simp [World.empty]) hc).1
    ⟨ascii "Up", by decide, by decide⟩ (ascii "m7") hget⟩

end Cache

end MediaService
