/-
The order of rows.

`Ranks cmp S` says that a three-way comparison, which may fail elsewhere, is on the elements of
`S` that of a total preorder.  Ranking goes through the ways in which the order of rows is put
together: a comparison may be turned round, and two comparisons may follow one another
(`Ranks.lex`).  So the comparison of rows ranks them as soon as the comparison of values ranks
the cells of each sort key, which is all that sorting asks (`rowBefore_orders`), and what it
means for sorted rows is `Precedes`, written down without any comparison of whole rows.
-/
import NoteQuery.Proofs.Sorting
import NoteQuery.Proofs.ValueOrder
import NoteQuery.Query.Run
import Mathlib.Data.List.Forall2

namespace NoteQuery

/-! ## Three-way comparisons -/

/-- An answer in a direction. -/
def SortDirection.turn : SortDirection → Ordering → Ordering
  | rising, o => o
  | falling, o => o.swap

theorem SortDirection.turn_eq_eq_iff {direction : SortDirection} {o : Ordering} :
    direction.turn o = .eq ↔ o = .eq := by
  cases direction with
  | rising => exact Iff.rfl
  | falling => exact Ordering.swap_eq_eq

/-- On certain elements the comparison has an answer, which is turned round with its arguments,
and coming not behind one another is transitive. -/
structure Ranks {α ε : Type} (cmp : α → α → Except ε Ordering) (S : α → Prop) : Prop where
  decides : ∀ {a b}, S a → S b → ∃ o, cmp a b = .ok o
  swap : ∀ {a b o}, S a → S b → cmp a b = .ok o → cmp b a = .ok o.swap
  trans : ∀ {a b c o o'}, S a → S b → S c → cmp a b = .ok o → cmp b c = .ok o' →
    o ≠ .gt → o' ≠ .gt → cmp a c ≠ .ok .gt

namespace Ranks

variable {α β ε : Type} {S : α → Prop} {T : β → Prop}
  {cmp : α → α → Except ε Ordering} {f : α → α → Except ε Ordering} {g : β → β → Except ε Ordering}

/-- Of two steps neither of which leads back, the first that leads on decides. -/
theorem chain (h : Ranks cmp S) {a b c : α} {o o' : Ordering} (ha : S a) (hb : S b) (hc : S c)
    (hab : cmp a b = .ok o) (hbc : cmp b c = .ok o') (ho : o ≠ .gt) (ho' : o' ≠ .gt) :
    cmp a c = .ok (o.then o') := by
  obtain ⟨d, hac⟩ := h.decides ha hc
  have hd : d ≠ .gt := fun hgt => h.trans ha hb hc hab hbc ho ho' (hgt ▸ hac)
  have hba := h.swap ha hb hab
  have hcb := h.swap hb hc hbc
  have hca := h.swap ha hc hac
  rw [hac]
  cases o with
  | gt => exact absurd rfl ho
  | lt =>
    cases d with
    | gt => exact absurd rfl hd
    | lt => rfl
    | eq => exact absurd hba (h.trans hb hc ha hbc hca ho' nofun)
  | eq =>
    cases o' with
    | gt => exact absurd rfl ho'
    | lt =>
      cases d with
      | gt => exact absurd rfl hd
      | lt => rfl
      | eq => exact absurd hcb (h.trans hc ha hb hca hab nofun nofun)
    | eq =>
      cases d with
      | gt => exact absurd rfl hd
      | lt => exact absurd hca (h.trans hc hb ha hcb hba nofun nofun)
      | eq => rfl

/-- Everything that stands for ranked elements is ranked like them. -/
theorem map (h : Ranks cmp S) (e : α → β) (hcmp : ∀ a b, S a → S b → g (e a) (e b) = cmp a b)
    (hS : ∀ b, T b → ∃ a, S a ∧ e a = b) : Ranks g T := by
  refine ⟨?_, ?_, ?_⟩
  · intro b b' hb hb'
    obtain ⟨a, ha, rfl⟩ := hS b hb
    obtain ⟨a', ha', rfl⟩ := hS b' hb'
    rw [hcmp a a' ha ha']
    exact h.decides ha ha'
  · intro b b' o hb hb' hbb
    obtain ⟨a, ha, rfl⟩ := hS b hb
    obtain ⟨a', ha', rfl⟩ := hS b' hb'
    rw [hcmp a a' ha ha'] at hbb
    rw [hcmp a' a ha' ha]
    exact h.swap ha ha' hbb
  · intro b b' b'' o o' hb hb' hb'' hbb hbb' ho ho'
    obtain ⟨a, ha, rfl⟩ := hS b hb
    obtain ⟨a', ha', rfl⟩ := hS b' hb'
    obtain ⟨a'', ha'', rfl⟩ := hS b'' hb''
    rw [hcmp a a' ha ha'] at hbb
    rw [hcmp a' a'' ha' ha''] at hbb'
    rw [hcmp a a'' ha ha'']
    exact h.trans ha ha' ha'' hbb hbb' ho ho'

theorem flip (h : Ranks cmp S) : Ranks (fun a b => cmp b a) S where
  decides ha hb := h.decides hb ha
  swap ha hb hba := h.swap hb ha hba
  trans ha hb hc hba hcb ho ho' := h.trans hc hb ha hcb hba ho' ho

/-- Elements that are ranked are also ranked in either direction. -/
theorem turn (h : Ranks cmp S) (direction : SortDirection) :
    Ranks (fun a b => (cmp a b).map direction.turn) S := by
  cases direction with
  | rising =>
    refine h.map id (fun a b ha hb => ?_) fun a ha => ⟨a, ha, rfl⟩
    obtain ⟨o, ho⟩ := h.decides ha hb
    simp only [id, ho, Except.map, SortDirection.turn]
  | falling =>
    refine h.flip.map id (fun a b ha hb => ?_) fun a ha => ⟨a, ha, rfl⟩
    obtain ⟨o, ho⟩ := h.decides ha hb
    simp only [id, ho, h.swap ha hb ho, Except.map, SortDirection.turn]

/-- Sorting needs no more of a comparison than that it ranks the elements. -/
theorem orders (h : Ranks cmp S) :
    Sorting.Orders (fun a b => (cmp a b).map (· == .lt)) S := by
  refine ⟨?_, ?_, ?_⟩
  · intro a b ha hb
    obtain ⟨o, ho⟩ := h.decides ha hb
    exact ⟨o == .lt, by rw [ho]; rfl⟩
  · intro a b ha hb hab
    obtain ⟨o, ho⟩ := h.decides ha hb
    rw [ho] at hab
    rw [h.swap ha hb ho]
    cases o with
    | lt => rfl
    | eq => cases hab
    | gt => cases hab
  · intro a b c ha hb hc hab hbc
    obtain ⟨o, ho⟩ := h.decides ha hb
    obtain ⟨o', ho'⟩ := h.decides hb hc
    obtain ⟨d, hd⟩ := h.decides ha hc
    rw [ho] at hab
    rw [ho'] at hbc
    rw [hd]
    cases d with
    | eq => rfl
    | gt => rfl
    | lt =>
      -- from `c` to `b` and on to `a` nothing leads back
      refine absurd (h.swap ha hc hd) (h.trans hc hb ha (h.swap hb hc ho') (h.swap ha hb ho) ?_ ?_)
      · cases o' with
        | lt => cases hbc
        | eq => nofun
        | gt => nofun
      · cases o with
        | lt => cases hab
        | eq => nofun
        | gt => nofun

end Ranks

/-- A comparison, and where it finds no difference another one. -/
def lexicographic {α β ε : Type} (f : α → α → Except ε Ordering) (g : β → β → Except ε Ordering)
    (p q : α × β) : Except ε Ordering := do
  match ← f p.1 q.1 with
  | .eq => g p.2 q.2
  | o => return o

section Lexicographic

variable {α β ε : Type} {f : α → α → Except ε Ordering} {g : β → β → Except ε Ordering}
  {p q : α × β}

theorem lexicographic_of_ne {o : Ordering} (h : f p.1 q.1 = .ok o) (ho : o ≠ .eq) :
    lexicographic f g p q = .ok o := by
  rw [lexicographic, h]
  cases o with
  | eq => exact absurd rfl ho
  | lt => rfl
  | gt => rfl

theorem lexicographic_of_eq (h : f p.1 q.1 = .ok .eq) :
    lexicographic f g p q = g p.2 q.2 := by
  rw [lexicographic, h]
  rfl

theorem lexicographic_eq_ok {o : Ordering} (h : lexicographic f g p q = .ok o) :
    (f p.1 q.1 = .ok o ∧ o ≠ .eq) ∨ (f p.1 q.1 = .ok .eq ∧ g p.2 q.2 = .ok o) := by
  obtain ⟨d, hd, h⟩ := bind_eq_ok.mp h
  cases d with
  | eq => exact .inr ⟨hd, h⟩
  | lt => cases h; exact .inl ⟨hd, nofun⟩
  | gt => cases h; exact .inl ⟨hd, nofun⟩

/-- Where the second does not come before the first, it is not the first comparison that says
so, and the second one is asked only on a tie. -/
theorem first_of_lexicographic {o : Ordering} (h : lexicographic f g p q = .ok o) (ho : o ≠ .gt) :
    ∃ d, f p.1 q.1 = .ok d ∧ d ≠ .gt ∧ (d = .eq → g p.2 q.2 = .ok o) := by
  rcases lexicographic_eq_ok h with ⟨hf, hne⟩ | ⟨hf, hg⟩
  · exact ⟨o, hf, ho, fun heq => absurd heq hne⟩
  · exact ⟨.eq, hf, nofun, fun _ => hg⟩

theorem Ranks.lex {S : α → Prop} {T : β → Prop} (hf : Ranks f S) (hg : Ranks g T) :
    Ranks (lexicographic f g) fun p => S p.1 ∧ T p.2 := by
  refine ⟨?_, ?_, ?_⟩
  · intro p q hp hq
    obtain ⟨o, ho⟩ := hf.decides hp.1 hq.1
    by_cases heq : o = .eq
    · subst heq
      rw [lexicographic_of_eq ho]
      exact hg.decides hp.2 hq.2
    · exact ⟨o, lexicographic_of_ne ho heq⟩
  · intro p q o hp hq h
    rcases lexicographic_eq_ok h with ⟨hfo, hne⟩ | ⟨hfo, hgo⟩
    · refine lexicographic_of_ne (hf.swap hp.1 hq.1 hfo) ?_
      cases o with
      | eq => exact absurd rfl hne
      | lt => nofun
      | gt => nofun
    · rw [lexicographic_of_eq (hf.swap hp.1 hq.1 hfo)]
      exact hg.swap hp.2 hq.2 hgo
  · intro p q t o o' hp hq ht hpq hqt ho ho' hpt
    obtain ⟨d, hd, hdgt, hgd⟩ := first_of_lexicographic hpq ho
    obtain ⟨d', hd', hdgt', hgd'⟩ := first_of_lexicographic hqt ho'
    have hfirst := hf.chain hp.1 hq.1 ht.1 hd hd' hdgt hdgt'
    rcases lexicographic_eq_ok hpt with ⟨hgt, -⟩ | ⟨heq, hgt⟩
    · exact hf.trans hp.1 hq.1 ht.1 hd hd' hdgt hdgt' hgt
    · rw [heq, Except.ok.injEq, eq_comm, Ordering.then_eq_eq] at hfirst
      exact hg.trans hp.2 hq.2 ht.2 (hgd hfirst.1) (hgd' hfirst.2) ho ho' hgt

end Lexicographic

/-! ## Cells -/

namespace Value

/-- The first value does not come behind the second. -/
def NotBehind (v w : Value) : Prop :=
  ∃ o, compare false v w = .ok o ∧ o ≠ .gt

/-- On certain values, not to come behind one another is a total preorder. -/
structure TotallyPreordered (S : Value → Prop) : Prop where
  total : ∀ v w, S v → S w → NotBehind v w ∨ NotBehind w v
  trans : ∀ u v w, S u → S v → S w → NotBehind u v → NotBehind v w → NotBehind u w

theorem notBehind_int {k l : Int} : NotBehind (.int k) (.int l) ↔ k ≤ l := by
  constructor
  · rintro ⟨o, ho, hgt⟩
    obtain rfl : Ord.compare k l = o := Except.ok.inj ho
    exact Int.compare_ne_gt.mp hgt
  · intro h
    exact ⟨Ord.compare k l, rfl, Int.compare_ne_gt.mpr h⟩

theorem totallyPreordered_int : TotallyPreordered fun v => ∃ k : Int, v = .int k where
  total := by
    rintro _ _ ⟨k, rfl⟩ ⟨l, rfl⟩
    rw [notBehind_int, notBehind_int]
    exact Int.le_total k l
  trans := by
    rintro _ _ _ ⟨k, rfl⟩ ⟨l, rfl⟩ ⟨m, rfl⟩
    rw [notBehind_int, notBehind_int, notBehind_int]
    exact Int.le_trans

theorem TotallyPreordered.mono {S T : Value → Prop} (h : TotallyPreordered S)
    (hT : ∀ v, T v → S v) : TotallyPreordered T where
  total v w hv hw := h.total v w (hT v hv) (hT w hw)
  trans u v w hu hv hw := h.trans u v w (hT u hu) (hT v hv) (hT w hw)

theorem TotallyPreordered.ranks {S : Value → Prop} (h : TotallyPreordered S) :
    Ranks (compare false) S := by
  refine ⟨?_, fun _ _ => compare_swap, ?_⟩
  · intro v w hv hw
    rcases h.total v w hv hw with ⟨o, ho, -⟩ | ⟨o, ho, -⟩
    · exact ⟨o, ho⟩
    · exact ⟨o.swap, compare_swap ho⟩
  · intro u v w o o' hu hv hw huv hvw ho ho' huw
    obtain ⟨d, hd, hdgt⟩ := h.trans u v w hu hv hw ⟨o, huv, ho⟩ ⟨o', hvw, ho'⟩
    rw [hd] at huw
    cases huw
    exact hdgt rfl

end Value

/-! ## Rows -/

namespace Value

theorem compareTexts_eq_lt_iff {s t : String} : compareTexts s t = .lt ↔ s < t := by
  unfold compareTexts
  by_cases hst : s < t
  · rw [if_pos hst]
    exact ⟨fun _ => hst, fun _ => rfl⟩
  · rw [if_neg hst]
    refine ⟨fun h => ?_, fun h => absurd h hst⟩
    split at h <;> cases h

theorem compareTexts_eq_gt_iff {s t : String} : compareTexts s t = .gt ↔ t < s := by
  rw [compareTexts_swap t s, Ordering.swap_eq_gt, compareTexts_eq_lt_iff]

theorem compareTexts_eq_eq {s t : String} (h : compareTexts s t = .eq) : s = t := by
  unfold compareTexts at h
  split at h
  · cases h
  · next hst =>
    split at h
    · cases h
    · next hts => exact String.le_antisymm (String.not_lt.mp hts) (String.not_lt.mp hst)

end Value

namespace Run

/-- Two rows by their paths. -/
def comparePaths (a b : Row) : Except Failure Ordering :=
  .ok (Value.compareTexts a.path b.path)

theorem comparePaths_ranks : Ranks comparePaths fun _ => True where
  decides _ _ := ⟨_, rfl⟩
  swap {a b o} _ _ h := by
    cases h
    exact congrArg Except.ok (Value.compareTexts_swap a.path b.path)
  trans {a b c o o'} _ _ _ hab hbc ho ho' hac := by
    cases hab
    cases hbc
    rw [comparePaths, Except.ok.injEq, Value.compareTexts_eq_gt_iff] at hac
    rw [ne_eq, Value.compareTexts_eq_gt_iff, String.not_lt] at ho ho'
    exact String.not_lt.mpr (String.le_trans ho ho') hac

theorem rowBefore_eq (keys : List SortKey) :
    rowBefore keys =
      fun a b => (lexicographic (compareKeys keys) comparePaths a b).map (· == .lt) := by
  funext a b
  unfold rowBefore lexicographic
  cases compareKeys keys a.1 b.1 with
  | error e => rfl
  | ok o => cases o <;> rfl

theorem compareKeys_cons (key : SortKey) (keys : List SortKey) (v w : Value) (vs ws : List Value) :
    compareKeys (key :: keys) (v :: vs) (w :: ws) =
      lexicographic (fun v w => (Value.compare false v w).map key.direction.turn)
        (compareKeys keys) (v, vs) (w, ws) := by
  simp only [compareKeys, lexicographic]
  cases Value.compare false v w with
  | error e => rfl
  | ok o => cases o <;> cases key.direction <;> rfl

/-- Lists of cells are ranked where the cells of each key are. -/
theorem compareKeys_ranks {P : SortKey → Value → Prop} {keys : List SortKey}
    (h : ∀ key ∈ keys, Value.TotallyPreordered (P key)) :
    Ranks (compareKeys keys) (List.Forall₂ P keys) := by
  induction keys with
  | nil =>
    refine ⟨fun _ _ => ⟨.eq, rfl⟩, fun _ _ h => ?_, fun _ _ _ _ _ _ _ => nofun⟩
    cases h
    rfl
  | cons key keys ih =>
    rw [List.forall_mem_cons] at h
    refine ((h.1.ranks.turn key.direction).lex (ih h.2)).map (fun p => p.1 :: p.2) ?_ ?_
    · intro p q _ _
      exact compareKeys_cons key keys p.1 q.1 p.2 q.2
    · intro vs hvs
      cases hvs with
      | cons hv hvs => exact ⟨(_, _), ⟨hv, hvs⟩, rfl⟩

/-- `v` is what a row has for a sort key. -/
def HasCell (r : Run) (files : FileIndex) (row : Row) (key : SortKey) (v : Value) : Prop :=
  ∃ warnings, cell (r.scope files row none) row (.string key.property) = .ok (v, warnings)

/-- One row comes before another: the first key in which they differ puts it there, in the
direction of the key, or there is none and its path is smaller. -/
inductive Precedes (r : Run) (files : FileIndex) (a b : Row) : List SortKey → Prop
  | byPath : a.path < b.path → Precedes r files a b []
  | byKey {key : SortKey} {keys : List SortKey} {v w : Value} {o : Ordering} :
      r.HasCell files a key v → r.HasCell files b key w → Value.compare false v w = .ok o →
      key.direction.turn o = .lt → Precedes r files a b (key :: keys)
  | tied {key : SortKey} {keys : List SortKey} {v w : Value} :
      r.HasCell files a key v → r.HasCell files b key w → Value.compare false v w = .ok .eq →
      Precedes r files a b keys → Precedes r files a b (key :: keys)

theorem precedes_of_compare {r : Run} {files : FileIndex} {a b : Row} {keys : List SortKey}
    {vs ws : List Value} (hvs : List.Forall₂ (r.HasCell files a) keys vs)
    (hws : List.Forall₂ (r.HasCell files b) keys ws)
    (h : lexicographic (compareKeys keys) comparePaths (vs, a) (ws, b) = .ok .lt) :
    Precedes r files a b keys := by
  induction hvs generalizing ws with
  | nil =>
    cases hws
    exact .byPath (Value.compareTexts_eq_lt_iff.mp (Except.ok.inj h))
  | cons hv _ ih =>
    cases hws with
    | cons hw hws =>
      rcases lexicographic_eq_ok h with ⟨hkeys, -⟩ | ⟨hkeys, hpath⟩
      · rw [compareKeys_cons] at hkeys
        rcases lexicographic_eq_ok hkeys with ⟨hfirst, -⟩ | ⟨hfirst, hrest⟩
        · obtain ⟨o, ho, hturn⟩ := map_eq_ok.mp hfirst
          exact .byKey hv hw ho hturn
        · obtain ⟨o, ho, hturn⟩ := map_eq_ok.mp hfirst
          rw [SortDirection.turn_eq_eq_iff] at hturn
          subst hturn
          exact .tied hv hw ho (ih hws (lexicographic_of_ne hrest nofun))
      · rw [compareKeys_cons] at hkeys
        rcases lexicographic_eq_ok hkeys with ⟨-, hne⟩ | ⟨hfirst, hrest⟩
        · exact absurd rfl hne
        · obtain ⟨o, ho, hturn⟩ := map_eq_ok.mp hfirst
          rw [SortDirection.turn_eq_eq_iff] at hturn
          subst hturn
          exact .tied hv hw ho (ih hws ((lexicographic_of_eq hrest).trans hpath))

section Ranked

variable {P : SortKey → Value → Prop} {keys : List SortKey}

theorem compareRows_ranks (h : ∀ key ∈ keys, Value.TotallyPreordered (P key)) :
    Ranks (lexicographic (compareKeys keys) comparePaths)
      fun p => List.Forall₂ P keys p.1 ∧ True :=
  (compareKeys_ranks h).lex comparePaths_ranks

/-- What sorting asks of the comparison of rows holds of rows whose cells are ranked. -/
theorem rowBefore_orders (h : ∀ key ∈ keys, Value.TotallyPreordered (P key)) :
    Sorting.Orders (rowBefore keys) fun p => List.Forall₂ P keys p.1 := by
  rw [rowBefore_eq]
  exact (compareRows_ranks h).orders.mono fun p hp => ⟨hp, trivial⟩

/-- A row that another one is not before is before that one, unless their paths are the same. -/
theorem path_eq_or_lt (h : ∀ key ∈ keys, Value.TotallyPreordered (P key))
    {p q : List Value × Row} (hp : List.Forall₂ P keys p.1) (hq : List.Forall₂ P keys q.1)
    (hqp : rowBefore keys q p = .ok false) :
    p.2.path = q.2.path ∨ lexicographic (compareKeys keys) comparePaths p q = .ok .lt := by
  rw [rowBefore_eq, map_eq_ok] at hqp
  obtain ⟨o, ho, hlt⟩ := hqp
  have hpq := (compareRows_ranks h).swap ⟨hq, trivial⟩ ⟨hp, trivial⟩ ho
  cases o with
  | lt => cases hlt
  | gt => exact .inr hpq
  | eq =>
    rcases lexicographic_eq_ok hpq with ⟨-, hne⟩ | ⟨-, hpath⟩
    · exact absurd rfl hne
    · exact .inl (Value.compareTexts_eq_eq (Except.ok.inj hpath))

end Ranked

end Run

end NoteQuery
