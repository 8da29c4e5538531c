import NdsDevkit.Tokenizer.Passes

namespace NdsDevkit.Tokenizer

open Framework Text NdsUnicode61Cursor

section Stalls

variable {module : NdsUnicode61} {p q k : Piece} {ps : List Piece}

theorem stalls_run {run rest : List Piece} (h : ∀ p ∈ run, p.kind module ≠ .bigram) :
    stalls module (run ++ rest) = stalls module rest := by
  induction run with
  | nil => rfl
  | cons p run ih =>
    obtain ⟨hp, hrun⟩ := List.forall_mem_cons.mp h
    rw [List.cons_append, stalls_cons_of_ne hp, ih hrun]

theorem stalls_one (hp : p.kind module = .bigram) : stalls module [p] = true := by
  have hall : ∀ r ∈ [p], r.kind module = .bigram := by simpa using hp
  simp [stalls, trailingRun_all hall]

theorem stalls_two (hp : p.kind module = .bigram) (hq : q.kind module = .bigram) :
    stalls module [p, q] = true := by
  have hall : ∀ r ∈ [p, q], r.kind module = .bigram := by simp [hp, hq]
  simp [stalls, trailingRun_all hall]

theorem stalls_three (hp : p.kind module = .bigram) (hk : k.kind module = .bigram)
    (hq : q.kind module = .bigram) : stalls module [p, k, q] =
      (module.isTokenChar q.last && isBigrammable q.last) := by
  have hall : ∀ r ∈ [p, k, q], r.kind module = .bigram := by simp [hp, hk, hq]
  simp [stalls, trailingRun_all hall]

end Stalls

variable {fresh : Nat → Nat → UInt8} {table : UnicharDecompositionTable} {module : NdsUnicode61}
  {cursor : NdsUnicode61Cursor} {clean : Bool} {p : Piece} {ps : List Piece}

/-- The calls on a cursor that stands at these pieces follow the reference. -/
def Follows (fresh : Nat → Nat → UInt8) (table : UnicharDecompositionTable) (module : NdsUnicode61)
    (ps : List Piece) : Prop :=
  ∀ ⦃cursor clean⦄, cursor.Placed module ps clean →
    Serves fresh table module cursor cursor.token.Exact (segments module ps) clean
      (stalls module ps)

/-- The same inside a run of bigrammable clusters, the last two of which are `j` and `k`. -/
def FollowsBigram (fresh : Nat → Nat → UInt8) (table : UnicharDecompositionTable)
    (module : NdsUnicode61) (ps : List Piece) : Prop :=
  ∀ ⦃cursor clean j k run rest⦄, InBigram table module cursor k ps clean →
    j.kind module = .bigram → ps = run ++ rest → IsRun (Piece.kind module) .bigram (k :: run) rest →
    Serves fresh table module cursor (Trails table module cursor k)
      (bigrams k run ++ segments module rest) clean (stalls module (j :: k :: ps))

theorem Serves.of_hangs {exact : Prop} {ss : List Segment} {hangs hangs' : Bool}
    (h : Serves fresh table module cursor exact ss clean hangs)
    (heq : clean = false → hangs = hangs') :
    Serves fresh table module cursor exact ss clean hangs' := by
  refine ⟨h.complete, ?_⟩
  intro hclean
  rw [← heq hclean]
  exact h.broken hclean

theorem Placed.separator (h : cursor.Placed module (p :: ps) clean)
    (hp : p.kind module = .separator) : ∃ off l, cursor.Left off l clean ∧
      pieces module off l = ps ∧ cursor.state = .unknown ∧ cursor.isEnd = false := by
  obtain ⟨⟨off, l, hahead, hps⟩, hstate, _⟩ := h
  have hunknown : cursor.state = .unknown := by
    rw [hstate, stateAt, hp]
  cases l with
  | nil =>
    rw [pieces_nil] at hps
    cases hps
  | cons c l =>
    have hc : module.isTokenChar c.1 = false := by
      obtain ⟨marks, rest, heq⟩ := pieces_cons module off c l
      rw [heq] at hps
      cases hps
      exact kind_separator.mp hp
    rw [pieces_separator hc] at hps
    cases hps
    exact ⟨off + c.2, l, hahead.left, rfl, hunknown, hahead.isEnd_cons⟩

theorem length_behindSeparators_le (ps : List Piece) :
    (behindSeparators module ps).length ≤ ps.length :=
  (List.dropWhile_sublist _).length_le

/-- Where the next token has to be looked for. -/
theorem serves_seek {off : Nat} {l : Chars} (h : cursor.Left off l clean)
    (hstate : cursor.state = .unknown) (hend : cursor.isEnd = false)
    (hfollows : Follows fresh table module (behindSeparators module (pieces module off l))) :
    Serves fresh table module cursor cursor.token.Exact (segments module (pieces module off l))
      clean (stalls module (pieces module off l)) := by
  rw [← segments_behindSeparators, ← stalls_behindSeparators]
  rcases nextBody_seek fresh table module h hstate hend with
    ⟨hnil, r, hr, hcode⟩ | ⟨cursor', hplaced, _, hindex, htoken, _, hbody⟩
  · rw [hnil]
    cases clean with
    | true => exact .done hr hcode
    | false => exact .error hr hcode
  · refine .of_body_eq hbody hindex ?_ (hfollows hplaced)
    intro hexact
    rwa [htoken]

theorem follows_nil : Follows fresh table module [] := by
  intro cursor clean h
  obtain ⟨⟨off, hstands⟩, _, hclean⟩ := h
  obtain rfl := hclean rfl
  exact .done (nextBody_end hstands.nil.place.2) rfl

theorem follows_separator (hp : p.kind module = .separator)
    (ih : ∀ qs : List Piece, qs.length ≤ ps.length → Follows fresh table module qs) :
    Follows fresh table module (p :: ps) := by
  intro cursor clean h
  obtain ⟨off, l, hleft, rfl, hstate, hend⟩ := Placed.separator h hp
  rw [segments_separator hp, stalls_cons_of_ne (by simp [hp])]
  exact serves_seek hleft hstate hend (ih _ (length_behindSeparators_le _))

theorem follows_latin (hp : p.kind module = .latin)
    (ih : ∀ qs : List Piece, qs.length ≤ ps.length → Follows fresh table module qs) :
    Follows fresh table module (p :: ps) := by
  intro cursor clean h
  obtain ⟨run, rest, rfl, hrun⟩ := exists_run (Piece.kind module) p ps
  rw [hp] at hrun
  have hkinds : ∀ q ∈ p :: run, q.kind module ≠ .bigram := by
    intro q hq
    rw [hrun.same q hq]
    decide
  rw [← List.cons_append, segments_run hrun, stalls_run hkinds]
  rcases nextBody_latin fresh table h hrun with
    ⟨rfl, rfl, r, hr, hcode⟩ | ⟨text, cursor', hbody, hindex, hsize, htext, hplaced⟩
  · exact .error hr hcode
  · rw [runSegments_latin hp, List.singleton_append]
    exact .token hbody hindex hsize htext (ih rest (by simp) hplaced.index_succ)

/-- A run goes on exactly if there is more of it. -/
theorem continues_eq {run rest : List Piece} (hrun : ∀ q ∈ run, q.kind module = .bigram)
    (hmax : ∀ q ∈ rest.head?, q.kind module ≠ .bigram) :
    continues module (run ++ rest) = !run.isEmpty := by
  rw [continues]
  cases run with
  | nil =>
    cases hq : rest.head? with
    | none => simp [hq]
    | some q => simpa [hq] using hmax q (by simp [hq])
  | cons q run => simp [hrun q List.mem_cons_self]

/-- The first pair of a run, with its end as the cursor finds it. -/
theorem bigrams_eq {k q : Piece} {run rest : List Piece}
    (h : IsRun (Piece.kind module) .bigram (k :: q :: run) rest) : bigrams k (q :: run) =
      ⟨[k, q], k.start, if continues module (run ++ rest) then q.start else q.stop⟩ ::
        bigrams q run := by
  rw [continues_eq (fun p hp => h.same p (by simp [hp])) h.maximal]
  cases run <;> simp [bigrams]

theorem follows_bigram (hp : p.kind module = .bigram)
    (ih : ∀ qs : List Piece, qs.length ≤ ps.length → Follows fresh table module qs)
    (ihBigram : ∀ qs : List Piece, qs.length < ps.length → FollowsBigram fresh table module qs) :
    Follows fresh table module (p :: ps) := by
  intro cursor clean h
  obtain ⟨run, rest, hps, hrun⟩ := exists_run (Piece.kind module) p ps
  rw [hp] at hrun
  have hsegments : segments module (p :: ps) =
      runSegments module (p :: run) ++ segments module rest := by
    rw [hps, ← List.cons_append, segments_run hrun]
  rw [hsegments]
  rcases nextBody_bigramStart fresh table h hp with
    ⟨rfl, hshort, hdiverges⟩ | ⟨text, cursor', hne, hbody, hindex, hsize, htext, hplaced⟩ |
    ⟨q, qs, text, cursor', rfl, hq, hbody, hindex, hsize, htext, hin⟩
  · -- the input cannot be decoded behind the first or the second cluster
    have hstalls : stalls module (p :: ps) = true := by
      rcases hshort with rfl | ⟨q, rfl, hq⟩
      · exact stalls_one hp
      · exact stalls_two hp hq
    rw [hstalls]
    exact .hang hdiverges
  · obtain rfl : run = [] := hrun.alone (by rwa [← hps])
    obtain rfl : ps = rest := hps
    rw [runSegments_alone hp, List.singleton_append]
    refine .of_hangs
      (.token hbody hindex hsize htext (ih ps (Nat.le_refl _) hplaced.index_succ)) ?_
    intro hdirty
    cases ps with
    | nil =>
      rw [hplaced.clean_of_nil rfl] at hdirty
      cases hdirty
    | cons q qs => exact (stalls_append (hne q (by simp)) [p] qs).symm
  · obtain ⟨run', rfl, hqs⟩ := hrun.head hq hps
    rw [runSegments_bigrams hp, bigrams_eq hrun, List.cons_append, ← hqs]
    exact .token hbody hindex hsize htext
      (ihBigram qs (by simp) hin.index_succ hp hqs hrun.tail)

theorem followsBigram (ih : Follows fresh table module ps)
    (ihBigram : ∀ qs : List Piece, qs.length < ps.length → FollowsBigram fresh table module qs) :
    FollowsBigram fresh table module ps := by
  intro cursor clean j k run rest h hj hps hrun
  have hk : k.kind module = .bigram := hrun.same k List.mem_cons_self
  cases ps with
  | nil =>
    obtain ⟨rfl, rfl⟩ : run = [] ∧ rest = [] := by simpa using hps.symm
    obtain ⟨off, hstands⟩ := h.stands
    obtain rfl := h.clean_of_nil rfl
    exact .done (nextBody_end hstands.nil.place.2) rfl
  | cons q qs =>
    rcases nextBody_bigram fresh h with
      ⟨hq, cursor', hbody, hindex, hexact, hplaced⟩ |
      ⟨hq, rfl, rfl, cursor', hbody, hindex, hstuck, hlast⟩ |
      ⟨hq, text, cursor', hbody, hindex, hsize, htext, hin⟩
    · obtain rfl : run = [] := hrun.alone (by rw [← hps]; simpa using hq)
      obtain rfl : q :: qs = rest := hps
      rw [← List.nil_append (q :: qs), ← List.cons_append, ← List.cons_append,
        stalls_append hq [j, k] qs]
      exact .of_again hbody hindex hexact (ih hplaced)
    · rw [stalls_three hj hk hq, ← hlast]
      exact .of_again hbody hindex id hstuck.serves
    · obtain ⟨run', rfl, hqs⟩ := hrun.head hq hps
      rw [bigrams_eq hrun, List.cons_append, ← hqs]
      refine .of_hangs (.token hbody hindex hsize htext
        (ihBigram qs (by simp) hin.index_succ hk hqs hrun.tail)) ?_
      intro hdirty
      cases qs with
      | nil =>
        rw [hin.clean_of_nil rfl] at hdirty
        cases hdirty
      | cons q' qs => exact (stalls_cons j (by simp)).symm

/-- From every list of pieces the calls follow the reference. -/
theorem follows (fresh : Nat → Nat → UInt8) (table : UnicharDecompositionTable)
    (module : NdsUnicode61) (ps : List Piece) :
    Follows fresh table module ps ∧ FollowsBigram fresh table module ps := by
  apply pieces_induction module
  · exact follows_nil
  · intro p ps hp ih
    exact follows_separator hp ih
  · intro p ps hp ih
    exact follows_latin hp ih
  · intro p ps hp ih ihBigram
    exact follows_bigram hp ih ihBigram
  · intro ps ih ihBigram
    exact followsBigram ih ihBigram

/-- The characters of an input, as far as it can be decoded, and whether that is all of it. -/
def decoded (input : List UInt8) : Chars := (decodeAll input).1

def decodable (input : List UInt8) : Bool := (decodeAll input).2.isEmpty

theorem opened_left (b : UInt8) (bs : List UInt8) (token : StringBuffer) :
    Left { opened (b :: bs) with token } 0 (decoded (b :: bs)) (decodable (b :: bs)) :=
  ⟨by simp [opened], by simp [opened], ⟨by simp, rfl, rfl⟩⟩

theorem opened_isEnd (b : UInt8) (bs : List UInt8) (token : StringBuffer) :
    isEnd { opened (b :: bs) with token } = false := by
  simp [isEnd, inputEnd, opened]

/-- A new cursor follows the reference segmentation of its input, whatever its token buffer. -/
theorem serves_opened (fresh : Nat → Nat → UInt8) (table : UnicharDecompositionTable)
    (module : NdsUnicode61) (input : List UInt8) (token : StringBuffer) :
    Serves fresh table module { opened input with token } token.Exact
      (segmentation module (decoded input)) (decodable input)
      (stalls module (pieces module 0 (decoded input))) := by
  cases input with
  | nil =>
    have hend : ({ opened [] with token } : NdsUnicode61Cursor).isEnd = true := rfl
    rw [decodable, decoded, decodeAll_nil, segmentation, pieces_nil, segments_nil]
    exact .done (nextBody_end hend) rfl
  | cons b bs =>
    exact serves_seek (opened_left b bs token) rfl (opened_isEnd b bs token) (follows _ _ _ _).1

/-- The tokens of a decodable input, with their offsets, sizes and positions. -/
theorem runs_opened (fresh : Nat → Nat → UInt8) (table : UnicharDecompositionTable)
    (module : NdsUnicode61) {input : List UInt8} (hclean : decodable input = true) :
    ∃ ts, Runs fresh table module (opened input) ts .done ∧
      Matches table module 0 ts (segmentation module (decoded input)) := by
  obtain ⟨ts, hruns, hmatches, _⟩ :=
    (serves_opened fresh table module input (opened input).token).complete hclean
  exact ⟨ts, hruns, hmatches⟩

end NdsDevkit.Tokenizer
