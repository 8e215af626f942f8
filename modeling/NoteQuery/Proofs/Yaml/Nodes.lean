/-
Reading tokens into nodes ends in a complaint, or the tokens have ended with a fault.

The parser makes complaints and no faults of its own: it only comes upon the end of the tokens,
and passes on what it finds there.  The end stays the same while the tokens go.
-/
import NoteQuery.Proofs.Yaml.Tokens
import NoteQuery.Yaml.Node

namespace NoteQuery.Yaml.Node

section Reading

variable {α β : Type} {stop : Option Trouble} {s : Source}

/-- What comes of reading tokens that stop in a way: something and tokens that stop in the same
way, a complaint, or the fault at the stop. -/
def Reads (stop : Option Trouble) (x : Except Trouble (α × Source)) : Prop :=
  Ends (fun f => stop = some (.fault f)) (fun p => p.2.ending = stop) x

/-! ## Tokens and properties -/

theorem ending_next (h : s.ending = stop) : s.next.ending = stop :=
  h

theorem ends_peek (h : s.ending = stop) :
    Ends (fun f => stop = some (.fault f)) (fun _ => True) (peek s) := by
  unfold peek
  split
  · exact .value trivial
  · next e _ hending =>
    rw [hending] at h
    cases e with
    | complaint c => exact .complaint c
    | fault f => exact .fault h.symm
  · exact .value trivial

theorem ending_ite {p : Prop} [Decidable p] {other : Source} (h : s.ending = stop)
    (hother : other.ending = stop) : (if p then s else other).ending = stop := by
  split
  · exact h
  · exact hother

theorem reads_readProperties (h : s.ending = stop) : Reads stop (readProperties s) := by
  unfold readProperties
  refine (ends_peek h).bind ?_
  intro t _
  split
  · refine (ends_peek (ending_next h)).bind ?_
    intro u _
    split
    · exact .value h
    · exact .value h
  · refine (ends_peek (ending_next h)).bind ?_
    intro u _
    split
    · exact .value h
    · exact .value h
  · exact .value h

theorem ends_fullTag (p : Properties) :
    Ends (fun f => stop = some (.fault f)) (fun _ => True) (p.fullTag s) := by
  unfold Properties.fullTag
  split
  · exact .value trivial
  · exact .value trivial
  · split
    · exact .value trivial
    · exact .complaint _

theorem ends_declare (anchor : Option String) (mark : Mark) :
    Ends (fun f => stop = some (.fault f)) (fun _ => True) (declare anchor mark s) := by
  unfold declare
  split
  · exact .value trivial
  · split
    · exact .value trivial
    · exact .complaint _

theorem ending_anchored (anchor : Option String) (node : Node) :
    (anchored anchor node s).ending = s.ending := by
  unfold anchored
  split
  · rfl
  · rfl

/-! ## Nodes -/

/-- The readers of nodes keep to the stop, with so much fuel. -/
structure Keeps (stop : Option Trouble) (fuel : Nat) : Prop where
  node {s : Source} (place : Place) (h : s.ending = stop) : Reads stop (readNode fuel place s)
  optional {s : Source} (place : Place) (stops : List TokenKind) (mark : Mark)
    (h : s.ending = stop) : Reads stop (readOptional fuel place stops mark s)
  items {s : Source} (start : Mark) (h : s.ending = stop) : Reads stop (readItems fuel start s)
  looseItems {s : Source} (h : s.ending = stop) : Reads stop (readLooseItems fuel s)
  pairs {s : Source} (start : Mark) (h : s.ending = stop) : Reads stop (readPairs fuel start s)
  flowItems {s : Source} (start : Mark) (first : Bool) (h : s.ending = stop) :
    Reads stop (readFlowItems fuel start first s)
  flowPairs {s : Source} (start : Mark) (first : Bool) (h : s.ending = stop) :
    Reads stop (readFlowPairs fuel start first s)

/-- Something more, in front of what is read next. -/
theorem Reads.cons {γ : Type} {x : Except Trouble (β × Source)} {f : β → γ}
    (hx : Reads stop x) :
    Reads stop (x >>= fun p => (pure (f p.1, p.2) : Except Trouble (γ × Source))) :=
  hx.bind fun _ hp => .value hp

/-- A collection, which has its name while its parts are read. -/
theorem reads_collection {γ : Type} {parts : Read γ} {f : γ → Node} {mark : Node}
    {anchor : Option String} {start : Mark} (h : s.ending = stop)
    (hparts : ∀ {s : Source}, s.ending = stop → Reads stop (parts s)) :
    Reads stop (declare anchor start s >>= fun _ => parts (anchored anchor mark s) >>= fun p =>
      (pure (f p.1, anchored anchor (f p.1) p.2) : Except Trouble (Node × Source))) := by
  refine (ends_declare _ _).bind ?_
  intro _ _
  refine (hparts ((ending_anchored _ _).trans h)).bind ?_
  intro p hp
  exact .value ((ending_anchored _ _).trans hp)

/-- The value of a key is there or left out. -/
theorem Reads.valued {γ : Type} {p : Prop} [Decidable p] {x : Except Trouble (Node × Source)}
    {mark : Mark} {f : Node × Source → Except Trouble (γ × Source)} (h : s.ending = stop)
    (hx : Reads stop x) (hf : ∀ q, q.2.ending = stop → Reads stop (f q)) :
    Reads stop (if p then x >>= f else pure (empty mark, s) >>= f) :=
  .ite (hx.bind hf) (hf _ h)

namespace Keeps

variable {fuel : Nat}

theorem node_succ (ih : Keeps stop fuel) (place : Place) (h : s.ending = stop) :
    Reads stop (readNode (fuel + 1) place s) := by
  rw [readNode]
  refine (ends_peek h).bind ?_
  intro t _
  extract_lets _ rest
  have hrest : Reads stop (rest ()) := by
    refine (reads_readProperties h).bind ?_
    intro p hp
    refine (ends_fullTag p.1).bind ?_
    intro tag _
    refine (ends_peek hp).bind ?_
    intro u _
    extract_lets start sequenceTag mappingTag sequence mapping scalar
    have hsequence {items : Read (List Node)}
        (hitems : ∀ {s : Source}, s.ending = stop → Reads stop (items s)) :
        Reads stop (sequence items) :=
      reads_collection (f := (.sequence sequenceTag · start)) hp hitems
    have hmapping {pairs : Read (List (Node × Node))}
        (hpairs : ∀ {s : Source}, s.ending = stop → Reads stop (pairs s)) :
        Reads stop (mapping pairs) :=
      reads_collection (f := (.mapping mappingTag · start)) hp hpairs
    have hscalar (text : String) (plain : Bool) {s : Source} (hs : s.ending = stop) :
        Reads stop (scalar text plain s) := by
      refine (ends_declare _ _).bind ?_
      intro _ _
      exact .value ((ending_anchored _ _).trans hs)
    split
    · exact hsequence ih.looseItems
    · exact hscalar _ _ (ending_next hp)
    · exact hsequence fun hs => ih.flowItems _ _ (ending_next hs)
    · exact hmapping fun hs => ih.flowPairs _ _ (ending_next hs)
    · exact hsequence fun hs => ih.items _ (ending_next hs)
    · exact hsequence fun hs => ih.items _ (ending_next hs)
    · exact hmapping fun hs => ih.pairs _ (ending_next hs)
    · exact hmapping fun hs => ih.pairs _ (ending_next hs)
    · exact .ite (hscalar _ _ hp) (.complaint _)
  split
  · split
    · exact .value h
    · exact .complaint _
  · exact hrest

theorem optional_succ (ih : Keeps stop fuel) (place : Place) (stops : List TokenKind) (mark : Mark)
    (h : s.ending = stop) : Reads stop (readOptional (fuel + 1) place stops mark s) := by
  rw [readOptional]
  refine (ends_peek h).bind ?_
  intro t _
  exact .ite (.value h) (ih.node place h)

theorem items_succ (ih : Keeps stop fuel) (start : Mark) (h : s.ending = stop) :
    Reads stop (readItems (fuel + 1) start s) := by
  rw [readItems]
  refine (ends_peek h).bind ?_
  intro t _
  split
  · refine (ih.optional _ _ _ (ending_next h)).bind ?_
    intro item hitem
    exact (ih.items start hitem).cons
  · exact .value h
  · exact .complaint _

theorem looseItems_succ (ih : Keeps stop fuel) (h : s.ending = stop) :
    Reads stop (readLooseItems (fuel + 1) s) := by
  rw [readLooseItems]
  refine (ends_peek h).bind ?_
  intro t _
  split
  · refine (ih.optional _ _ _ (ending_next h)).bind ?_
    intro item hitem
    exact (ih.looseItems hitem).cons
  · exact .value h

theorem pairs_succ (ih : Keeps stop fuel) (start : Mark) (h : s.ending = stop) :
    Reads stop (readPairs (fuel + 1) start s) := by
  rw [readPairs]
  refine (ends_peek h).bind ?_
  intro t _
  split
  · refine (ih.optional _ _ _ (ending_next h)).bind ?_
    intro key hkey
    refine (ends_peek hkey).bind ?_
    intro u _
    refine Reads.valued hkey (ih.optional _ _ _ (ending_next hkey)) ?_
    intro value hvalue
    exact (ih.pairs start hvalue).cons
  · exact .value h
  · exact .complaint _

theorem flowItems_succ (ih : Keeps stop fuel) (start : Mark) (first : Bool) (h : s.ending = stop) :
    Reads stop (readFlowItems (fuel + 1) start first s) := by
  have hnext : (if first then s else s.next).ending = stop := ending_ite h h
  rw [readFlowItems]
  refine (ends_peek h).bind ?_
  intro t _
  refine .ite (.value h) (.guard ((ends_peek hnext).bind ?_))
  intro u _
  split
  · exact .value hnext
  · refine (ih.optional _ _ _ (ending_next hnext)).bind ?_
    intro key hkey
    refine (ends_peek hkey).bind ?_
    intro v _
    refine Reads.valued hkey (ih.optional _ _ _ (ending_next hkey)) ?_
    intro value hvalue
    exact (ih.flowItems start false hvalue).cons
  · refine (ih.node _ hnext).bind ?_
    intro item hitem
    exact (ih.flowItems start false hitem).cons

theorem flowPairs_succ (ih : Keeps stop fuel) (start : Mark) (first : Bool) (h : s.ending = stop) :
    Reads stop (readFlowPairs (fuel + 1) start first s) := by
  have hnext : (if first then s else s.next).ending = stop := ending_ite h h
  rw [readFlowPairs]
  refine (ends_peek h).bind ?_
  intro t _
  refine .ite (.value h) (.guard ((ends_peek hnext).bind ?_))
  intro u _
  split
  · exact .value hnext
  · refine (ih.optional _ _ _ (ending_next hnext)).bind ?_
    intro key hkey
    refine (ends_peek hkey).bind ?_
    intro v _
    refine Reads.valued hkey (ih.optional _ _ _ (ending_next hkey)) ?_
    intro value hvalue
    exact (ih.flowPairs start false hvalue).cons
  · refine (ih.node _ hnext).bind ?_
    intro key hkey
    refine (ends_peek hkey).bind ?_
    intro v _
    exact (ih.flowPairs start false hkey).cons

end Keeps

theorem keeps (stop : Option Trouble) (fuel : Nat) : Keeps stop fuel := by
  induction fuel with
  | zero =>
    exact {
      node := fun _ _ => .complaint _
      optional := fun _ _ _ h => .value h
      items := fun _ h => .value h
      looseItems := fun h => .value h
      pairs := fun _ h => .value h
      flowItems := fun _ _ h => .value h
      flowPairs := fun _ _ h => .value h }
  | succ fuel ih =>
    exact {
      node := ih.node_succ
      optional := ih.optional_succ
      items := ih.items_succ
      looseItems := ih.looseItems_succ
      pairs := ih.pairs_succ
      flowItems := ih.flowItems_succ
      flowPairs := ih.flowPairs_succ }

/-! ## Documents -/

/-- What comes of going on in tokens that stop in a way. -/
def Goes (stop : Option Trouble) (x : Except Trouble Source) : Prop :=
  Ends (fun f => stop = some (.fault f)) (fun s => s.ending = stop) x

theorem goes_readDirectives {versioned : Bool} {declared : List (String × String)} {fuel : Nat}
    (h : s.ending = stop) : Goes stop (readDirectives versioned declared fuel s) := by
  induction fuel generalizing versioned declared s with
  | zero => exact .value h
  | succ fuel ih =>
    rw [readDirectives]
    refine (ends_peek h).bind ?_
    intro t _
    split
    · exact .guard (.guard (ih (ending_next h)))
    · exact .guard (ih (ending_next h))
    · exact ih (ending_next h)
    · exact .value h

theorem goes_skipDocumentEnds {fuel : Nat} (h : s.ending = stop) :
    Goes stop (skipDocumentEnds fuel s) := by
  induction fuel generalizing s with
  | zero => exact .value h
  | succ fuel ih =>
    rw [skipDocumentEnds]
    refine (ends_peek h).bind ?_
    intro t _
    exact .ite (ih (ending_next h)) (.value h)

theorem ends_readDocumentStart (h : s.ending = stop) :
    Ends (fun f => stop = some (.fault f)) (fun start => ∀ p ∈ start, p.2.ending = stop)
      (readDocumentStart s) := by
  unfold readDocumentStart
  refine (goes_skipDocumentEnds h).bind ?_
  intro first hfirst
  refine (ends_peek hfirst).bind ?_
  intro t _
  split
  · exact .value fun _ hp => absurd hp (Option.not_mem_none _)
  · refine (goes_readDirectives hfirst).bind ?_
    intro rest hrest
    refine (ends_peek hrest).bind ?_
    intro u _
    refine .guard (.value ?_)
    rintro _ ⟨⟩
    exact hrest

theorem ends_ofTokens? (ts : List Token) (stop : Option Trouble) :
    Ends (fun f => stop = some (.fault f)) (fun _ => True) (ofTokens? ts stop) := by
  unfold ofTokens?
  extract_lets first fuel finish
  have hfirst : first.ending = stop := rfl
  have hfinish (node : Node) {s : Source} (h : s.ending = stop) :
      Ends (fun f => stop = some (.fault f)) (fun _ => True) (finish node s) := by
    refine (ends_peek h).bind ?_
    intro t _
    have hnext : (if t.kind = .documentEnd then s.next else s).ending = stop := ending_ite h h
    refine (ends_readDocumentStart hnext).bind ?_
    intro start _
    cases start with
    | none => exact .value trivial
    | some p => exact .complaint _
  have hnode {s : Source} (h : s.ending = stop) :
      Ends (fun f => stop = some (.fault f)) (fun _ => True)
        (readNode fuel .block s >>= fun p => finish p.1 p.2) := by
    refine ((keeps stop fuel).node _ h).bind ?_
    intro p hp
    exact hfinish p.1 hp
  refine (ends_peek hfirst).bind ?_
  intro t _
  refine .ite ?_ (hnode hfirst)
  refine (ends_readDocumentStart hfirst).bind ?_
  intro start hstart
  cases start with
  | none => exact .value trivial
  | some p =>
    have hp := hstart p rfl
    refine (ends_peek hp).bind ?_
    intro u _
    exact .ite (hfinish _ hp) (hnode hp)

end Reading

/-- A fault among the nodes is the one that the tokens stop with. -/
theorem ending_of_ofTokens? {ts : List Token} {stop : Option Trouble} {f : Fault}
    (h : ofTokens? ts stop = .error (.fault f)) : stop = some (.fault f) :=
  (ends_ofTokens? ts stop).reason h

end NoteQuery.Yaml.Node
