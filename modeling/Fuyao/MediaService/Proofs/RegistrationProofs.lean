import Fuyao.MediaService.Registration
import Fuyao.MediaService.Proofs.CallersProofs

/-!
# Proofs: movie titles under concurrent registration

A call that has looked for its title in vain owns the title until it has made its insertion. When
checks of a title are not made in the meantime, nobody else comes to own it, and after the insertion
every check finds the document.
-/

namespace MediaService

open Cpp Concurrency

section Registration

variable {ι : Type} {w w' : World} {T : List (ServiceEvent ι)} {a : ι → Standing} {i j : ι}
  {title : Bytes} {e : ServiceEvent ι}

theorem hasInserted_append_singleton :
    HasInserted j (T ++ [e]) ↔ HasInserted j T ∨ e.thread = j ∧ e.op.insertsMovie = true := by
  simp [HasInserted, or_and_right, exists_or]

/-- An event that is not an insertion, in a collection that stays as it is, changes nothing. -/
theorem RegisterInv.quiet (h : RegisterInv w T a) (hmovies : w'.movies = w.movies)
    (he : e.op.insertsMovie = false) : RegisterInv w' (T ++ [e]) a := by
  refine ⟨hmovies ▸ h.nodup, h.unique, hmovies ▸ h.absent, hmovies ▸ h.present, ?_, ?_⟩
  · intro j title hj
    obtain ⟨e', he', hlooked⟩ := h.looked j title hj
    exact ⟨e', List.mem_append_left _ he', hlooked⟩
  · intro j hj hins
    rcases hasInserted_append_singleton.mp hins with hins | ⟨-, hins⟩
    · exact h.early j hj hins
    · rw [he] at hins
      cases hins

/-- A title that nobody stands before inserting, and that is not in the collection, has no owner. -/
theorem RegisterInv.title_ne_of_unclaimed (h : RegisterInv w T a) (hfree : Unclaimed title T)
    (habsent : ∀ doc ∈ w.movies, doc.title ≠ title) (j : ι) : (a j).title ≠ some title := by
  intro hj
  cases hs : a j with
  | idle | failed => simp [hs, Standing.title] at hj
  | inserting t =>
    obtain rfl : t = title := by simpa [hs, Standing.title] using hj
    obtain ⟨e, he, rfl, hvain⟩ := h.looked j t hs
    exact h.early e.thread (by simp [hs, Standing.isEarly]) (hfree e he hvain)
  | inserted t =>
    obtain rfl : t = title := by simpa [hs, Standing.title] using hj
    obtain ⟨doc, hdoc, htitle⟩ := h.present j t hs
    exact habsent doc hdoc htitle

theorem keeps_of_not_insertsMovie {o : Op} (ho : o.insertsMovie = false) :
    (registerLogic (ι := ι)).Keeps i o := by
  intro c a ch res w' hinv hex
  refine RegisterInv.quiet hinv (World.exec_movies hex ?_) ho
  rintro doc rfl
  cases ho

variable [DecidableEq ι]

/-- A thread that looks in vain for a title without an owner becomes its owner. -/
theorem RegisterInv.claim (h : RegisterInv w T a) (hi : a i = .idle)
    (hfree : ∀ j, (a j).title ≠ some title) (habsent : ∀ doc ∈ w.movies, doc.title ≠ title)
    {res : Option Movie} :
    RegisterInv w (T ++ [⟨i, .findMovie title, res, w, w⟩])
      (Function.update a i (.inserting title)) := by
  have hq : RegisterInv w (T ++ [⟨i, .findMovie title, res, w, w⟩]) a := h.quiet rfl rfl
  refine ⟨hq.nodup, ?_, ?_, ?_, ?_, ?_⟩
  · intro j j' t hj hj'
    by_cases hji : j = i <;> by_cases hji' : j' = i
    · exact hji.trans hji'.symm
    · obtain rfl : title = t := by simpa [hji, Standing.title] using hj
      exact absurd (by simpa [hji'] using hj') (hfree j')
    · obtain rfl : title = t := by simpa [hji', Standing.title] using hj'
      exact absurd (by simpa [hji] using hj) (hfree j)
    · exact hq.unique j j' t (by simpa [hji] using hj) (by simpa [hji'] using hj')
  · intro j t hj
    by_cases hji : j = i
    · obtain rfl : title = t := by simpa [hji] using hj
      exact habsent
    · exact hq.absent j t (by simpa [hji] using hj)
  · intro j t hj
    by_cases hji : j = i
    · simp [hji] at hj
    · exact hq.present j t (by simpa [hji] using hj)
  · intro j t hj
    by_cases hji : j = i
    · obtain rfl : title = t := by simpa [hji] using hj
      exact ⟨_, List.mem_append_right _ (List.mem_singleton_self _), hji.symm, rfl, habsent⟩
    · exact hq.looked j t (by simpa [hji] using hj)
  · intro j hj
    by_cases hji : j = i
    · rw [hji]
      exact hq.early i (by simp [hi, Standing.isEarly])
    · exact hq.early j (by simpa [hji] using hj)

/-- The insertion of the owner of a title. It succeeds, or it reports a failure after it has taken
effect or without any effect. -/
theorem RegisterInv.insert (h : RegisterInv w T a) (hi : a i = .inserting title) {doc : Movie}
    (hdoc : doc.title = title) {res : Bool} {s : Standing}
    (hw : w'.movies = w.movies ++ [doc] ∧ (s = .inserted title ∨ s = .failed) ∨
      w'.movies = w.movies ∧ s = .failed) :
    RegisterInv w' (T ++ [⟨i, .insertMovie doc, res, w, w'⟩]) (Function.update a i s) := by
  have habsent : ∀ doc' ∈ w.movies, doc'.title ≠ title := h.absent i title hi
  have howner : ∀ j, (a j).title = some title → j = i := fun j hj =>
    h.unique j i title hj (by simp [hi, Standing.title])
  -- the title the thread has afterwards is the one it had before
  have htitle : ∀ t, s.title = some t → title = t := by
    intro t ht
    rcases hw with ⟨-, rfl | rfl⟩ | ⟨-, rfl⟩
    · exact Option.some.inj ht
    · cases ht
    · cases ht
  have hlate : ¬ s.isEarly := by
    rcases hw with ⟨-, rfl | rfl⟩ | ⟨-, rfl⟩ <;> simp [Standing.isEarly]
  have hmem : ∀ doc' ∈ w'.movies, doc' ∈ w.movies ∨ doc' = doc := by
    intro doc' hdoc'
    rcases hw with ⟨hw, -⟩ | ⟨hw, -⟩ <;> rw [hw] at hdoc' <;> simp_all
  refine ⟨?_, ?_, ?_, ?_, ?_, ?_⟩
  · rcases hw with ⟨hw, -⟩ | ⟨hw, -⟩
    · rw [hw, List.map_append, List.nodup_append']
      refine ⟨h.nodup, by simp, ?_⟩
      intro t ht hdoc'
      obtain ⟨doc', hdoc'', rfl⟩ := List.mem_map.mp ht
      exact habsent doc' hdoc'' ((by simpa using hdoc' : doc'.title = doc.title).trans hdoc)
    · exact hw ▸ h.nodup
  · intro j j' t hj hj'
    by_cases hji : j = i <;> by_cases hji' : j' = i
    · exact hji.trans hji'.symm
    · obtain rfl := htitle t (by simpa [hji] using hj)
      exact absurd (howner j' (by simpa [hji'] using hj')) hji'
    · obtain rfl := htitle t (by simpa [hji'] using hj')
      exact absurd (howner j (by simpa [hji] using hj)) hji
    · exact h.unique j j' t (by simpa [hji] using hj) (by simpa [hji'] using hj')
  · intro j t hj doc' hdoc'
    have hji : j ≠ i := by
      rintro rfl
      have hs : s = .inserting t := by simpa using hj
      exact hlate (by simp [hs, Standing.isEarly])
    have hjt : a j = .inserting t := by simpa [hji] using hj
    rcases hmem doc' hdoc' with hold | rfl
    · exact h.absent j t hjt doc' hold
    · rintro rfl
      exact hji (howner j (by simp [hjt, hdoc, Standing.title]))
  · intro j t hj
    by_cases hji : j = i
    · have hs : s = .inserted t := by simpa [hji] using hj
      rcases hw with ⟨hw, -⟩ | ⟨-, hfailed⟩
      · refine ⟨doc, by simp [hw], hdoc.trans (htitle t (by simp [hs, Standing.title]))⟩
      · rw [hs] at hfailed
        cases hfailed
    · obtain ⟨doc', hdoc', ht⟩ := h.present j t (by simpa [hji] using hj)
      refine ⟨doc', ?_, ht⟩
      rcases hw with ⟨hw, -⟩ | ⟨hw, -⟩ <;> simp [hw, hdoc']
  · intro j t hj
    have hji : j ≠ i := by
      rintro rfl
      have hs : s = .inserting t := by simpa using hj
      exact hlate (by simp [hs, Standing.isEarly])
    obtain ⟨e, he, hlooked⟩ := h.looked j t (by simpa [hji] using hj)
    exact ⟨e, List.mem_append_left _ he, hlooked⟩
  · intro j hj hins
    by_cases hji : j = i
    · exact hlate (by simpa [hji] using hj)
    · rcases hasInserted_append_singleton.mp hins with hins | ⟨hthread, -⟩
      · exact h.early j (by simpa [hji] using hj) hins
      · exact hji hthread.symm

/-! ## `RegisterMovieId` -/

/-- The check of a title: the document is there, or the thread becomes the owner of the title. -/
theorem performs_checkTitle
    {K : Option Movie → Standing → List (ServiceEvent ι) → Prop}
    (hfound : ∀ doc T', K (some doc) .idle T') (hnone : ∀ T', K none (.inserting title) T') :
    registerLogic.Performs i (.findMovie title) .idle T K := by
  intro c a ch res w' hT hinv hview hhead hadm hex hgood
  have hfind : c.shared.exec (.findMovie title) ch = some (res, w') := hex
  obtain ⟨hok, hfree⟩ := hadm title (by rw [hhead]; rfl)
  simp only [World.exec, World.faulty, hok] at hfind
  obtain ⟨rfl, rfl⟩ := Prod.mk.inj (Option.some.inj hfind)
  cases hres : c.shared.movies.find? (·.title == title) with
  | some doc =>
    refine ⟨a, RegisterInv.quiet hinv rfl rfl, fun _ _ => rfl, ?_⟩
    rw [hview]
    exact hfound doc _
  | none =>
    have habsent : ∀ doc ∈ c.shared.movies, doc.title ≠ title := by
      simpa using List.find?_eq_none.mp hres
    refine ⟨Function.update a i (.inserting title), ?_, ?_, ?_⟩
    · exact RegisterInv.claim hinv hview (RegisterInv.title_ne_of_unclaimed hinv hfree habsent) habsent
    · intro j hj
      exact Function.update_of_ne hj ..
    · simpa [registerLogic] using hnone _

/-- The insertion of the owner of a title. -/
theorem performs_insertMovie {doc : Movie} (hdoc : doc.title = title)
    {K : Bool → Standing → List (ServiceEvent ι) → Prop}
    (hok : ∀ T', K true (.inserted title) T') (hfail : ∀ T', K false .failed T') :
    registerLogic.Performs i (.insertMovie doc) (.inserting title) T K := by
  intro c a ch res w' hT hinv hview hhead hadm hex hgood
  have hinsert : c.shared.exec (.insertMovie doc) ch = some (res, w') := hex
  have hothers : ∀ s j, j ≠ i → Function.update a i s j = a j := fun s j hj =>
    Function.update_of_ne hj ..
  obtain ⟨-, rfl, rfl⟩ | ⟨-, rfl, rfl⟩ | ⟨-, rfl, rfl⟩ := World.faulty_cases hinsert
  · refine ⟨Function.update a i (.inserted title), ?_, hothers _, ?_⟩
    · exact RegisterInv.insert hinv hview hdoc (.inl ⟨rfl, .inl rfl⟩)
    · simpa [registerLogic] using hok _
  · refine ⟨Function.update a i .failed, ?_, hothers _, ?_⟩
    · exact RegisterInv.insert hinv hview hdoc (.inr ⟨rfl, rfl⟩)
    · simpa [registerLogic] using hfail _
  · refine ⟨Function.update a i .failed, ?_, hothers _, ?_⟩
    · exact RegisterInv.insert hinv hview hdoc (.inl ⟨rfl, .inr rfl⟩)
    · simpa [registerLogic] using hfail _

/-- A call that returns 0 has inserted a document with its title. -/
theorem registerMovieId_wp (val : TitleForRegister) :
    registerLogic.wp i (registerMovieId val)
      (fun out v _ => out = .ok 0 → v = .inserted val.title.bytes) .idle T := by
  have hquiet : ∀ {o : Op}, o.insertsMovie = false → (registerLogic (ι := ι)).Keeps i o :=
    keeps_of_not_insertsMovie
  -- an error: the client goes back and the call returns -1
  have herror : ∀ v T', registerLogic.wp i (ask (.mongoPush .registerMovieId) >>= fun _ => return -1)
      (fun out v _ => out = .ok 0 → v = .inserted val.title.bytes) v T' := fun v T' =>
    wp_ask ((hquiet rfl).performs fun _ _ _ h => by cases h)
  refine wp_ask ((hquiet rfl).performs ?_)
  rintro (_ | _) T₁ -
  · intro h
    cases h
  refine wp_ask ((hquiet rfl).performs ?_)
  rintro (_ | _) T₂ -
  · exact herror .idle T₂
  refine wp_ask (performs_checkTitle (fun doc T₃ => herror .idle T₃) fun T₃ => ?_)
  refine wp_ask (performs_insertMovie rfl (fun T₄ => ?_) fun T₄ => herror .failed T₄)
  exact wp_ask ((hquiet rfl).performs fun _ _ _ _ => rfl)

theorem registerMovieId1_wp (input : Json) :
    registerLogic.wp i (registerMovieId1 input) (fun out v _ => out = .ok 0 →
      ∃ title, input.uploadTitle = some title ∧ v = .inserted title.bytes) .idle T := by
  unfold registerMovieId1
  split
  next req_id title movie_id _ htitle _ =>
    have hraise : ∀ e : Exn, (Except.error e : Except Exn Int) = .ok 0 →
        ∃ title, input.uploadTitle = some title ∧ Standing.idle = .inserted title.bytes := by
      rintro e ⟨⟩
    refine Logic.wp_ofExcept (fun r _ => ?_) fun e _ => hraise e
    refine Logic.wp_ofExcept (fun s hs => ?_) fun e _ => hraise e
    refine Logic.wp_ofExcept (fun m _ => ?_) fun e _ => hraise e
    refine Logic.wp_ofExcept (fun t ht => ?_) fun e _ => hraise e
    refine Logic.wp_ofExcept (fun m' _ => ?_) fun e _ => hraise e
    refine Logic.wp_mono (registerMovieId_wp _) fun out v _ _ hout h0 => ⟨t, ?_, hout h0⟩
    simp [Json.uploadTitle, htitle, hs, ht, Except.toOption]
  · intro h
    cases h

/-! ## Runs -/

/-- When no call checks a title while another one stands between its check of it and its insertion,
the collection never holds two documents with the same title, and at most one of the calls for a title
returns 0. -/
theorem movie_titles_unique {inputs : ι → Json} {w₀ : World} {c : ServiceConfig ι}
    (h₀ : (w₀.movies.map Movie.title).Nodup)
    (hc : Reach (Config.step machine) Exclusive (Config.initial w₀ (registerCalls inputs)) c) :
    (c.shared.movies.map Movie.title).Nodup ∧
      ∀ i j, (inputs i).uploadTitle = (inputs j).uploadTitle →
        (c.threads i).outcome = some (.ok 0) → (c.threads j).outcome = some (.ok 0) → i = j := by
  have hinit : RegisterInv w₀ ([] : List (ServiceEvent ι)) fun _ => .idle :=
    ⟨h₀, by simp [Standing.title], by simp, by simp, by simp, by simp [HasInserted]⟩
  have henv : ∀ (c : ServiceConfig ι) a e w', RegisterInv c.shared c.trace a → Exclusive c (.env e) →
      World.env e c.shared = some w' → ∃ a', RegisterInv w' c.trace a' ∧ ∀ j, a' j = a j := by
    intro c a e w' h _ he
    have hmovies : w'.movies = c.shared.movies := World.env_movies he
    exact ⟨a, ⟨hmovies ▸ h.nodup, h.unique, hmovies ▸ h.absent, hmovies ▸ h.present, h.looked, h.early⟩,
      fun _ => rfl⟩
  obtain ⟨a, hinv, hthreads⟩ := Logic.sound (P := registerLogic) (fun _ => Standing.idle) hinit
    (fun i => registerMovieId1_wp (inputs i)) henv hc fun _ _ => trivial
  have hwinner : ∀ i, (c.threads i).outcome = some (.ok 0) →
      ∃ title, (inputs i).uploadTitle = some title ∧ a i = .inserted title.bytes := by
    intro i hi
    obtain ⟨T, -, hwp⟩ := hthreads i
    exact Logic.wp_outcome hwp hi rfl
  refine ⟨hinv.nodup, fun i j htitle hi hj => ?_⟩
  obtain ⟨ti, hti, hai⟩ := hwinner i hi
  obtain ⟨tj, htj, haj⟩ := hwinner j hj
  obtain rfl : ti = tj := Option.some.inj (hti.symm.trans (htitle.trans htj))
  exact hinv.unique i j ti.bytes (by simp [hai, Standing.title]) (by simp [haj, Standing.title])

/-- Two registrations of one title and one of another. -/
def sampleInputs : Fin 3 → Json
  | 0 => ⟨some (.integer 1), some (.string (ascii "Up")), some (.string (ascii "m1")), none, none⟩
  | 1 => ⟨some (.integer 2), some (.string (ascii "Up")), some (.string (ascii "m2")), none, none⟩
  | 2 => ⟨some (.integer 3), some (.string (ascii "Her")), some (.string (ascii "m3")), none, none⟩

/-- The second call checks the title after the first has inserted it, and while the third stands
between its own check and its insertion. -/
theorem movie_titles_unique_sample :
    ∃ c, Reach (Config.step machine) Exclusive (Config.initial World.empty (registerCalls sampleInputs)) c ∧
      (c.threads 0).outcome = some (.ok 0) ∧ (c.threads 1).outcome = some (.ok (-1)) ∧
      (c.threads 2).outcome = some (.ok 0) ∧ (c.shared.movies.map Movie.title).Nodup := by
  obtain ⟨c, hc, h0, h1, h2⟩ :
      ∃ c, Reach (Config.step machine) Exclusive (Config.initial World.empty (registerCalls sampleInputs)) c ∧
        (c.threads 0).outcome = some (.ok 0) ∧ (c.threads 1).outcome = some (.ok (-1)) ∧
        (c.threads 2).outcome = some (.ok 0) :=
    ⟨_, reach_of_runLabels (okRun [0, 1, 2, 0, 1, 2, 2, 0, 0, 1, 1, 0, 2, 2]) (by decide) rfl,
      rfl, rfl, rfl⟩
  exact ⟨c, hc, h0, h1, h2, (movie_titles_unique (by simp [World.empty]) hc).1⟩

/-- Both calls look for the title before either inserts it: no operation fails, both return 0, and the
collection holds two documents with the same title. -/
theorem movie_titles_duplicated :
    ∃ c, ReachableFrom World.empty Reliable (registerCalls sampleInputs) c ∧
      (sampleInputs 0).uploadTitle = (sampleInputs 1).uploadTitle ∧
      (c.threads 0).outcome = some (.ok 0) ∧ (c.threads 1).outcome = some (.ok 0) ∧
      c.shared.movies = [⟨ascii "Up", ascii "m1"⟩, ⟨ascii "Up", ascii "m2"⟩] :=
  ⟨_, reachable_okRun [0, 1, 0, 1, 0, 1, 0, 1, 0, 1] rfl, rfl, rfl, rfl, rfl⟩

end Registration

end MediaService
