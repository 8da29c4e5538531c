import NdsDevkit.Tokenizer.Steps

namespace NdsDevkit.Tokenizer

open Framework Text NdsUnicode61Cursor

/-- How a sequence of calls can end. -/
inductive Finish where
  | done
  | error
  | hang
  deriving DecidableEq

section

variable (fresh : Nat → Nat → UInt8) (table : UnicharDecompositionTable) (module : NdsUnicode61)

/-- The calls of `NdsUnicode61_next` on a cursor report these tokens, up to the call that reports
none. -/
inductive Runs : NdsUnicode61Cursor → List Token → Finish → Prop where
  | done {cursor r} (h : Returns (nextBody fresh table module) cursor r)
      (hcode : r.code = sqliteDone) : Runs cursor [] .done
  | error {cursor r} (h : Returns (nextBody fresh table module) cursor r)
      (hcode : r.code = sqliteError) : Runs cursor [] .error
  | hang {cursor} (h : Diverges (nextBody fresh table module) cursor) : Runs cursor [] .hang
  | token {cursor r t ts f} (h : Returns (nextBody fresh table module) cursor r)
      (hcode : r.code = sqliteOk) (ht : r.token = some t) (hrun : Runs r.cursor ts f) :
      Runs cursor (t :: ts) f

variable {fresh table module} {cursor cursor' : NdsUnicode61Cursor}

/-- A call comes back with one result code. -/
theorem code_unique {r r' : NextResult} {a b : Int}
    (h : Returns (nextBody fresh table module) cursor r)
    (h' : Returns (nextBody fresh table module) cursor r') (ha : r.code = a) (hb : r'.code = b) :
    a = b := by
  rw [← ha, ← hb, h.unique h']

theorem Runs.unique {ts ts' : List Token} {f f' : Finish} (h : Runs fresh table module cursor ts f)
    (h' : Runs fresh table module cursor ts' f') : ts = ts' ∧ f = f' := by
  induction h generalizing ts' f' with
  | done hr hcode =>
    cases h' with
    | done => exact ⟨rfl, rfl⟩
    | error hr' hcode' => exact absurd (code_unique hr hr' hcode hcode') (by decide)
    | hang hd => exact absurd hd hr.not_diverges
    | token hr' hcode' => exact absurd (code_unique hr hr' hcode hcode') (by decide)
  | error hr hcode =>
    cases h' with
    | done hr' hcode' => exact absurd (code_unique hr hr' hcode hcode') (by decide)
    | error => exact ⟨rfl, rfl⟩
    | hang hd => exact absurd hd hr.not_diverges
    | token hr' hcode' => exact absurd (code_unique hr hr' hcode hcode') (by decide)
  | hang hd =>
    cases h' with
    | done hr' => exact absurd hd hr'.not_diverges
    | error hr' => exact absurd hd hr'.not_diverges
    | hang => exact ⟨rfl, rfl⟩
    | token hr' => exact absurd hd hr'.not_diverges
  | token hr hcode ht _ ih =>
    cases h' with
    | done hr' hcode' => exact absurd (code_unique hr hr' hcode hcode') (by decide)
    | error hr' hcode' => exact absurd (code_unique hr hr' hcode hcode') (by decide)
    | hang hd => exact absurd hd hr.not_diverges
    | token hr' _ ht' hrun' =>
      cases hr.unique hr'
      rw [ht] at ht'
      cases ht'
      obtain ⟨h1, h2⟩ := ih hrun'
      exact ⟨by rw [h1], h2⟩

theorem Runs.of_again {ts : List Token} {f : Finish}
    (hbody : nextBody fresh table module cursor = .again cursor')
    (h : Runs fresh table module cursor' ts f) : Runs fresh table module cursor ts f := by
  cases h with
  | done hr hcode => exact .done (.of_again hbody hr) hcode
  | error hr hcode => exact .error (.of_again hbody hr) hcode
  | hang hd => exact .hang (.of_again hbody hd)
  | token hr hcode ht hrun => exact .token (.of_again hbody hr) hcode ht hrun

/-- The calls depend on what the first pass does. -/
theorem Runs.of_body_eq {ts : List Token} {f : Finish}
    (hbody : nextBody fresh table module cursor = nextBody fresh table module cursor')
    (h : Runs fresh table module cursor' ts f) : Runs fresh table module cursor ts f := by
  cases h with
  | done hr hcode => exact .done (hr.of_body_eq hbody) hcode
  | error hr hcode => exact .error (hr.of_body_eq hbody) hcode
  | hang hd => exact .hang (hd.of_body_eq hbody)
  | token hr hcode ht hrun => exact .token (hr.of_body_eq hbody) hcode ht hrun

/-- Tokens as the reference has them, numbered from `index` on. -/
def Matches (table : UnicharDecompositionTable) (module : NdsUnicode61) (index : Nat)
    (ts : List Token) (ss : List Segment) : Prop :=
  ts.map (fun t => (t.startOffset, t.endOffset, t.text.length, t.position)) =
    (ss.zipIdx index).map fun s =>
      (s.1.startOffset, s.1.endOffset, clusterSize table module s.1.clusters, s.2)

section

variable {index : Nat} {ts : List Token} {ss : List Segment}

theorem Matches.map_eq {β : Type*} (h : Matches table module index ts ss)
    (f : Nat → Nat → Nat → β) :
    ts.map (fun t => f t.startOffset t.endOffset t.text.length) =
      ss.map fun s => f s.startOffset s.endOffset (clusterSize table module s.clusters) := by
  have hprojected := congrArg
    (List.map fun r : Nat × Nat × Nat × Nat => f r.1 r.2.1 r.2.2.1) h
  rw [List.map_map, List.map_map] at hprojected
  rw [← List.zipIdx_map_fst index ss, List.map_map]
  exact hprojected

theorem Matches.forall_iff (h : Matches table module index ts ss) (P : Nat → Nat → Nat → Prop) :
    (∀ t ∈ ts, P t.startOffset t.endOffset t.text.length) ↔
      ∀ s ∈ ss, P s.startOffset s.endOffset (clusterSize table module s.clusters) := by
  have hmap := h.map_eq P
  calc
    _ ↔ ∀ q ∈ ts.map fun t => P t.startOffset t.endOffset t.text.length, q :=
      List.forall_mem_map.symm
    _ ↔ ∀ q ∈ ss.map fun s => P s.startOffset s.endOffset (clusterSize table module s.clusters),
        q := by rw [hmap]
    _ ↔ _ := List.forall_mem_map

end

/-- What the calls on a cursor come to: on decodable input the tokens of the reference and the end,
otherwise an error, or a call that does not return. If the token buffer is `exact`, the tokens have
the texts of the reference. -/
structure Serves (fresh : Nat → Nat → UInt8) (table : UnicharDecompositionTable)
    (module : NdsUnicode61) (cursor : NdsUnicode61Cursor) (exact : Prop) (ss : List Segment)
    (clean hangs : Bool) : Prop where
  complete : clean = true →
    ∃ ts, Runs fresh table module cursor ts .done ∧ Matches table module cursor.index ts ss ∧
      (exact → ts.map Token.text = ss.map fun s => clusterText table module s.clusters)
  broken : clean = false →
    ∃ ts, Runs fresh table module cursor ts (if hangs then .hang else .error)

variable {exact exact' : Prop} {ss : List Segment} {clean hangs : Bool}

theorem Serves.of_again (hbody : nextBody fresh table module cursor = .again cursor')
    (hindex : cursor'.index = cursor.index) (hexact : exact → exact')
    (h : Serves fresh table module cursor' exact' ss clean hangs) :
    Serves fresh table module cursor exact ss clean hangs := by
  constructor
  · intro hclean
    obtain ⟨ts, hr, hm, htexts⟩ := h.complete hclean
    exact ⟨ts, hr.of_again hbody, by rwa [← hindex], fun he => htexts (hexact he)⟩
  · intro hclean
    obtain ⟨ts, hr⟩ := h.broken hclean
    exact ⟨ts, hr.of_again hbody⟩

theorem Serves.of_body_eq
    (hbody : nextBody fresh table module cursor = nextBody fresh table module cursor')
    (hindex : cursor'.index = cursor.index) (hexact : exact → exact')
    (h : Serves fresh table module cursor' exact' ss clean hangs) :
    Serves fresh table module cursor exact ss clean hangs := by
  constructor
  · intro hclean
    obtain ⟨ts, hr, hm, htexts⟩ := h.complete hclean
    exact ⟨ts, hr.of_body_eq hbody, by rwa [← hindex], fun he => htexts (hexact he)⟩
  · intro hclean
    obtain ⟨ts, hr⟩ := h.broken hclean
    exact ⟨ts, hr.of_body_eq hbody⟩

/-- A token that is reported as the reference has it. -/
theorem Serves.token {text : List UInt8} {s : Segment}
    (hbody : nextBody fresh table module cursor =
      .exit (report text s.startOffset s.endOffset cursor'))
    (hindex : cursor'.index = cursor.index)
    (hsize : text.length = clusterSize table module s.clusters)
    (hexact : exact → text = clusterText table module s.clusters ∧ exact')
    (h : Serves fresh table module { cursor' with index := cursor'.index + 1 } exact' ss clean
      hangs) :
    Serves fresh table module cursor exact (s :: ss) clean hangs := by
  have hret := Returns.of_exit hbody
  constructor
  · intro hclean
    obtain ⟨ts, hr, hm, htexts⟩ := h.complete hclean
    refine ⟨_, .token hret rfl rfl hr, ?_, ?_⟩
    · unfold Matches at hm ⊢
      rw [List.map_cons, List.zipIdx_cons, List.map_cons, hm, hsize, hindex]
    · intro he
      obtain ⟨htext, he'⟩ := hexact he
      rw [List.map_cons, List.map_cons, htexts he', htext]
  · intro hclean
    obtain ⟨ts, hr⟩ := h.broken hclean
    exact ⟨_, .token hret rfl rfl hr⟩

theorem Serves.done {r : NextResult} (hbody : nextBody fresh table module cursor = .exit r)
    (hcode : r.code = sqliteDone) : Serves fresh table module cursor exact [] true hangs := by
  constructor
  · intro _
    exact ⟨[], .done (.of_exit hbody) hcode, rfl, fun _ => rfl⟩
  · intro hclean
    cases hclean

theorem Serves.error {r : NextResult} (hbody : nextBody fresh table module cursor = .exit r)
    (hcode : r.code = sqliteError) : Serves fresh table module cursor exact ss false false := by
  constructor
  · intro hclean
    cases hclean
  · intro _
    exact ⟨[], .error (.of_exit hbody) hcode⟩

theorem Serves.hang (hd : Diverges (nextBody fresh table module) cursor) :
    Serves fresh table module cursor exact ss false true := by
  constructor
  · intro hclean
    cases hclean
  · intro _
    exact ⟨[], .hang hd⟩

end

end NdsDevkit.Tokenizer
