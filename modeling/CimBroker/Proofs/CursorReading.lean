/-
# CimBroker.Proofs.CursorReading — reading results in turn

The results of a query are read one at a time: as objects, as records, or as the items of an
iteration, in any order of these three, and with whatever else happening to the other side in
between.  The three ways share one step (`Results.Way.ask_ofCursor`): as long as the end has not
been told, a call asks the cursor once, and what it makes of the answer is its own; neither an error
nor an object that does not decode as a record changes what is left.  Once the end has been told, a
call makes no round trip at all (`Results.Way.ask_done`).

A run of calls is then a row of turns, and reading all results as records is the row of turns that
ask for records, up to the first that yields none.

`Service.results_are_read_in_turn` has both, with `Turn.Polls` and `Turn.Idle` for a single turn.
The second part needs the cursor to come to an end (`Service.EndsWithin`); that the cursors of the
broker in memory do is shown (`Broker.countsDown_access`), and of other backends it is a hypothesis.
What the query was that the cursor belongs to does not matter here.
-/
import CimBroker.Proofs.Journal
import CimBroker.Record.Samples

namespace CimBroker

variable {σ : Type}

/-- The event asks a cursor for its next result. -/
def Event.isPoll : Event → Bool
  | next _ _ => true
  | _ => false

namespace Results

/-! ## One step -/

/-- What the cursor answers is handed on. -/
theorem run_next_ofCursor (access : ObjectAccess σ) (c : Cursor) (b : σ) :
    (Results.next access (ofCursor c)).run b =
      match (access.next c).run b with
      | (.ok (some h), b') => (.ok (some h, ofCursor c), b')
      | (.ok none, b') => (.ok (none, ⟨none⟩), b')
      | (.error e, b') => (.error e, b') := by
  unfold Results.next ofCursor
  dsimp only
  rw [Action.run_bind]
  rcases (access.next c).run b with ⟨_ | _ | h, b'⟩ <;> rfl

/-- What the cursor answers is read as a record where it is an object. -/
theorem run_nextRecord_ofCursor (R : Type) [Record R] (access : ObjectAccess σ) (c : Cursor)
    (b : σ) :
    (nextRecord R access (ofCursor c)).run b =
      match (access.next c).run b with
      | (.ok (some h), b') =>
        (((access.getAll R h).run b').1.map fun r => (some r, ofCursor c),
          ((access.getAll R h).run b').2)
      | (.ok none, b') => (.ok (none, ⟨none⟩), b')
      | (.error e, b') => (.error e, b') := by
  unfold nextRecord
  rw [Action.run_bind, run_next_ofCursor]
  rcases (access.next c).run b with ⟨_ | _ | h, b'⟩
  · rfl
  · rfl
  · dsimp only
    rw [Action.run_bind]
    rcases (access.getAll R h).run b' with ⟨_ | r, b''⟩ <;> rfl

/-- A record leaves the cursor to be read on. -/
theorem rest_of_record {R : Type} [Record R] {access : ObjectAccess σ} {c : Cursor} {b b' : σ}
    {r : R} {rest : Results}
    (h : (nextRecord R access (ofCursor c)).run b = (.ok (some r, rest), b')) :
    ∃ handle between, (access.next c).run b = (.ok (some handle), between) ∧
      (access.getAll R handle).run between = (.ok r, b') ∧ rest = ofCursor c := by
  rw [run_nextRecord_ofCursor] at h
  rcases hnext : (access.next c).run b with ⟨_ | _ | handle, between⟩
  · rw [hnext] at h
    cases h
  · rw [hnext] at h
    cases h
  · rw [hnext] at h
    dsimp only at h
    rcases hget : (access.getAll R handle).run between with ⟨_ | r', after⟩
    · rw [hget] at h
      cases h
    · rw [hget] at h
      cases h
      exact ⟨handle, between, rfl, hget, rfl⟩

/-! ## Ways to ask -/

/-- A way to ask for the next result: as an object, as a record, or as an item of an iteration. -/
inductive Way : Type 1
  | object
  | record (R : Type) [Record R]
  | item

/-- What a call is answered. -/
inductive Answer : Type 1
  | object (outcome : Except Error (Option Handle))
  | record {R : Type} (outcome : Except Error (Option R))
  | item (found : Option (Except Error Handle))

/-- What an answer of the cursor leaves to be read. -/
def leftAfter (c : Cursor) : Except Error (Option Handle) → Results
  | .ok none => ⟨none⟩
  | _ => ofCursor c

theorem isDone_leftAfter (c : Cursor) (p : Except Error (Option Handle)) :
    (leftAfter c p).isDone ↔ p = .ok none := by
  rcases p with e | _ | h <;> simp [leftAfter, isDone, ofCursor]

theorem leftAfter_of_ne (c : Cursor) {p : Except Error (Option Handle)} (h : p ≠ .ok none) :
    leftAfter c p = ofCursor c := by
  rcases p with e | _ | handle
  · rfl
  · exact absurd rfl h
  · rfl

namespace Way

/-- Asks for the next result. -/
def ask (access : ObjectAccess σ) : Way → Results × σ → Answer × Results × σ
  | object, st =>
    let out := (advance fun r => r.next access).run st
    (.object out.1, out.2)
  | record R, st =>
    let out := (advance fun r => r.nextRecord R access).run st
    (.record out.1, out.2)
  | item, st =>
    let out := (nextItem access).run st
    (.item out.1, out.2)

/-- The answer that there are no more results. -/
def done : Way → Answer
  | object => .object (.ok none)
  | record R => .record (.ok (none : Option R))
  | item => .item none

/-- The answer that the cursor failed. -/
def failed (e : Error) : Way → Answer
  | object => .object (.error e)
  | record R => .record (.error e : Except Error (Option R))
  | item => .item (some (.error e))

/-- What is made of an object: it is handed out, or read as a record. -/
def handOut (access : ObjectAccess σ) (h : Handle) : Way → σ → Answer × σ
  | object, b => (.object (.ok (some h)), b)
  | record R, b => (.record (((access.getAll R h).run b).1.map some), ((access.getAll R h).run b).2)
  | item, b => (.item (some (.ok h)), b)

/-- What is made of the answer of a cursor and the state that it leaves. -/
def answerTo (access : ObjectAccess σ) (way : Way) : Except Error (Option Handle) × σ → Answer × σ
  | (.ok (some h), b) => way.handOut access h b
  | (.ok none, b) => (way.done, b)
  | (.error e, b) => (way.failed e, b)

/-- After the end every way is answered without a look at the other side. -/
theorem ask_done (access : ObjectAccess σ) (way : Way) (b : σ) :
    way.ask access (⟨none⟩, b) = (way.done, ⟨none⟩, b) := by
  cases way <;> rfl

/-- Before the end every way asks the cursor once. -/
theorem ask_ofCursor (access : ObjectAccess σ) (way : Way) (c : Cursor) (b : σ) :
    way.ask access (ofCursor c, b) =
      ((way.answerTo access ((access.next c).run b)).1, leftAfter c ((access.next c).run b).1,
        (way.answerTo access ((access.next c).run b)).2) := by
  have hadvance : (advance fun r => r.next access).run (ofCursor c, b) =
      (((access.next c).run b).1, leftAfter c ((access.next c).run b).1,
        ((access.next c).run b).2) := by
    unfold advance
    rw [Action.run_ofRun, run_next_ofCursor]
    rcases (access.next c).run b with ⟨_ | _ | h, b'⟩ <;> rfl
  cases way with
  | object =>
    unfold ask
    dsimp only
    rw [hadvance]
    rcases (access.next c).run b with ⟨_ | _ | h, b'⟩ <;> rfl
  | record R =>
    unfold ask advance
    dsimp only
    rw [Action.run_ofRun, run_nextRecord_ofCursor]
    rcases (access.next c).run b with ⟨_ | _ | h, b'⟩
    · rfl
    · rfl
    · -- the object is there, so the results stay as they are whether it decodes or not
      show _ = (Answer.record (((access.getAll R h).run b').1.map some), ofCursor c,
        ((access.getAll R h).run b').2)
      dsimp only
      rcases (access.getAll R h).run b' with ⟨_ | r, b''⟩ <;> rfl
  | item =>
    have houtcome : (advance fun r => r.next access).outcome.run (ofCursor c, b) =
        (((access.next c).run b).1, leftAfter c ((access.next c).run b).1,
          ((access.next c).run b).2) :=
      hadvance
    unfold ask nextItem
    dsimp only
    rw [StateT.run_bind, houtcome]
    rcases (access.next c).run b with ⟨_ | _ | h, b'⟩ <;> rfl

end Way
end Results

/-! ## Round trips of a step -/

namespace WrittenDown

/-- Reading a record asks no cursor. -/
theorem getAll (s : Service σ) (R : Type) [Record R] (h : Handle) :
    WrittenDown (fun e => e.isPoll = false) (s.journaled.access.getAll R h)
      (s.access.getAll R h) := by
  have hgetAs (name : String) (t : DataType) :
      WrittenDown (fun e => e.isPoll = false) (s.journaled.access.getAs h name t)
        (s.access.getAs h name t) := by
    apply bind
    · exact bind (witnessed fun _ => rfl) fun _ => pure _
    · exact fun v => ofExcept (t.decode v)
  apply bind
  · exact onFirst _
  · intro bag
    apply bind (ofExcept _)
    intro r
    split
    · exact pure r
    · apply bind (hgetAs _ _)
      intro path
      exact bind (hgetAs _ _) fun className => pure _

/-- Reading the next result as a record adds the same events to every journal. -/
theorem nextRecord (s : Service σ) (R : Type) [Record R] (r : Results) :
    WrittenDown (fun _ => True) (r.nextRecord R s.journaled.access) (r.nextRecord R s.access) := by
  apply bind
  · unfold Results.next
    cases r.cursor? with
    | none => exact pure _
    | some c =>
      apply bind (witnessed fun _ => trivial)
      intro found
      cases found <;> exact pure _
  · rintro ⟨found, rest⟩
    cases found with
    | none => exact pure _
    | some h => exact bind ((getAll s R h).mono fun _ _ => trivial) fun _ => pure _

end WrittenDown

/-! ## Turns -/

/-- A call for the next result, with what happens to the other side before it. -/
structure Results.Call (σ : Type) : Type 1 where
  meanwhile : σ → σ
  way : Results.Way

/-- A call that was made: how, from where, what it was answered, and what it leaves of the results
and of the other side; and its round trips. -/
structure Turn (σ : Type) : Type 1 where
  way : Results.Way
  start : σ
  answer : Results.Answer
  left : Results
  finish : σ
  trips : List Event

/-- One call. -/
def Service.turn (s : Service σ) (way : Results.Way) (r : Results) (b : σ) : Turn σ :=
  let out := way.ask s.journaled.access (r, b, [])
  ⟨way, b, out.1, out.2.1, out.2.2.1, out.2.2.2⟩

/-- Calls in a row, each on what the one before it left. -/
def Service.turns (s : Service σ) : List (Results.Call σ) → Results → σ → List (Turn σ)
  | [], _, _ => []
  | call :: calls, r, b =>
    s.turn call.way r (call.meanwhile b) ::
      s.turns calls (s.turn call.way r (call.meanwhile b)).left
        (s.turn call.way r (call.meanwhile b)).finish

namespace Turn

/-- The call asks the cursor once, and is answered what its way makes of the cursor's answer. -/
structure Polls (s : Service σ) (c : Cursor) (t : Turn σ) : Prop where
  polls : t.trips.filter Event.isPoll = [.next c ((s.access.next c).run t.start).1]
  answered : (t.answer, t.finish) = t.way.answerTo s.access ((s.access.next c).run t.start)

/-- The call is answered that there are no more results, without a round trip. -/
structure Idle (t : Turn σ) : Prop where
  trips : t.trips = []
  answered : t.answer = t.way.done
  untouched : t.finish = t.start

end Turn

/-- The cursor has told one of the calls that there are no more results. -/
def EndTold (c : Cursor) (turns : List (Turn σ)) : Prop :=
  ∃ t ∈ turns, Event.next c (.ok none) ∈ t.trips

namespace Service

variable (s : Service σ)

/-- After the end has been told a call is idle, and so are all that follow. -/
theorem turn_done (way : Results.Way) (b : σ) :
    (s.turn way ⟨none⟩ b).Idle ∧ (s.turn way ⟨none⟩ b).left = ⟨none⟩ := by
  unfold turn
  rw [Results.Way.ask_done]
  exact ⟨⟨rfl, rfl, rfl⟩, rfl⟩

/-- What a way makes of the cursor's answer asks no cursor. -/
theorem answerTo_journaled (way : Results.Way) (p : Except Error (Option Handle)) (b : σ) :
    ∃ reads, (∀ e ∈ reads, e.isPoll = false) ∧ ∀ journal,
      way.answerTo s.journaled.access (p, b, journal) =
        ((way.answerTo s.access (p, b)).1, (way.answerTo s.access (p, b)).2, journal ++ reads) := by
  have hnothing (answer : Results.Answer) : ∃ reads : List Event, (∀ e ∈ reads, e.isPoll = false) ∧
      ∀ journal, (answer, b, journal) = (answer, b, journal ++ reads) :=
    ⟨[], List.forall_mem_nil _, fun journal => by rw [List.append_nil]⟩
  rcases p with e | _ | h
  · exact hnothing _
  · exact hnothing _
  · cases way with
    | object => exact hnothing _
    | item => exact hnothing _
    | record R =>
      obtain ⟨reads, hreads, hrun⟩ := WrittenDown.getAll s R h b
      refine ⟨reads, hreads, fun journal => ?_⟩
      show (Results.Answer.record (((s.journaled.access.getAll R h).run (b, journal)).1.map some),
        ((s.journaled.access.getAll R h).run (b, journal)).2) = _
      rw [hrun]
      rfl

/-- Before the end has been told a call polls, and what is left depends on the answer of the cursor
alone. -/
theorem turn_ofCursor (way : Results.Way) (c : Cursor) (b : σ) :
    (s.turn way (.ofCursor c) b).Polls s c ∧
      (s.turn way (.ofCursor c) b).left = Results.leftAfter c ((s.access.next c).run b).1 := by
  obtain ⟨p, b', hnext⟩ : ∃ p b', (s.access.next c).run b = (p, b') := ⟨_, _, rfl⟩
  have hjournaled : (s.journaled.access.next c).run (b, []) = (p, b', [.next c p]) := by
    show (((s.access.next c).run b).1, ((s.access.next c).run b).2,
      [Event.next c ((s.access.next c).run b).1]) = _
    rw [hnext]
  obtain ⟨reads, hreads, hanswer⟩ := s.answerTo_journaled way p b'
  have hnone : reads.filter Event.isPoll = [] := by
    rw [List.filter_eq_nil_iff]
    intro e he
    simp [hreads e he]
  unfold turn
  rw [Results.Way.ask_ofCursor, hjournaled, hanswer]
  refine ⟨⟨?_, ?_⟩, ?_⟩
  · dsimp only
    rw [hnext, List.singleton_append, List.filter_cons_of_pos rfl, hnone]
  · rw [hnext]
  · rw [hnext]

/-- The end is told by a turn that polls exactly if the cursor answers so. -/
theorem endTold_cons {c : Cursor} {t : Turn σ} (ht : t.Polls s c) (turns : List (Turn σ)) :
    EndTold c (t :: turns) ↔ ((s.access.next c).run t.start).1 = .ok none ∨ EndTold c turns := by
  have hmem : Event.next c (.ok none) ∈ t.trips ↔
      ((s.access.next c).run t.start).1 = .ok none := by
    have hpoll : Event.next c (.ok none) ∈ t.trips.filter Event.isPoll ↔
        Event.next c (.ok none) ∈ t.trips := by
      simp [Event.isPoll]
    rw [← hpoll, ht.polls, List.mem_singleton, Event.next.injEq]
    simp [eq_comm]
  simp [EndTold, hmem]

/-- After the end has been told every turn is idle. -/
theorem turns_done (calls : List (Results.Call σ)) (b : σ) :
    ∀ t ∈ s.turns calls ⟨none⟩ b, t.Idle ∧ t.left = ⟨none⟩ := by
  induction calls generalizing b with
  | nil => exact List.forall_mem_nil _
  | cons call calls ih =>
    have hfirst := s.turn_done call.way (call.meanwhile b)
    rw [turns, hfirst.2]
    exact List.forall_mem_cons.mpr ⟨hfirst, ih _⟩

/-- In every row of calls on a cursor, each turn polls as long as no turn before it was told the
end, and is idle from then on; the results are done once the end has been told. -/
theorem turns_poll {c : Cursor} {calls : List (Results.Call σ)} {b : σ}
    {before later : List (Turn σ)} {t : Turn σ}
    (h : s.turns calls (.ofCursor c) b = before ++ t :: later) :
    (¬ EndTold c before → t.Polls s c) ∧ (EndTold c before → t.Idle) ∧
      (t.left.isDone ↔ EndTold c (before ++ [t])) := by
  -- by induction on the turns before, as long as none of them is told the end
  induction before generalizing calls b with
  | nil =>
    cases calls with
    | nil => cases h
    | cons call calls =>
      obtain ⟨hpolls, hleft⟩ := s.turn_ofCursor call.way c (call.meanwhile b)
      obtain ⟨rfl, -⟩ := List.cons.inj h
      have hnothing : ¬ EndTold c ([] : List (Turn σ)) := by simp [EndTold]
      refine ⟨fun _ => hpolls, fun htold => absurd htold hnothing, ?_⟩
      rw [List.nil_append, s.endTold_cons hpolls, hleft, Results.isDone_leftAfter]
      exact (or_iff_left hnothing).symm
  | cons first before ih =>
    cases calls with
    | nil => cases h
    | cons call calls =>
      obtain ⟨hpolls, hleft⟩ := s.turn_ofCursor call.way c (call.meanwhile b)
      rw [turns, List.cons_append, List.cons.injEq] at h
      obtain ⟨rfl, hrest⟩ := h
      rw [List.cons_append, s.endTold_cons hpolls, s.endTold_cons hpolls]
      have hstart : (s.turn call.way (.ofCursor c) (call.meanwhile b)).start = call.meanwhile b :=
        rfl
      rw [hleft] at hrest
      rw [hstart]
      by_cases hp : ((s.access.next c).run (call.meanwhile b)).1 = .ok none
      · have hmem : t ∈ before ++ t :: later := List.mem_append_right before List.mem_cons_self
        rw [hp] at hrest
        obtain ⟨hidle, hdone⟩ := s.turns_done calls _ t (hrest.symm ▸ hmem)
        simp [hp, hidle, hdone, Results.isDone]
      · rw [Results.leftAfter_of_ne c hp] at hrest
        simpa only [hp, false_or] using ih hrest

end Service

/-! ## All results as records -/

/-- What is stated to be left of a cursor is a bound on the number of objects that it will yield: it
shrinks with every object, and grows with no look at one. -/
structure ObjectAccess.CountsDown (access : ObjectAccess σ) (c : Cursor) : Prop where
  next {b b' : σ} {h : Handle} : (access.next c).run b = (.ok (some h), b') →
    access.remaining b' c < access.remaining b c
  get (h : Handle) (name : String) (b : σ) :
    access.remaining ((access.get h name).run b).2 c ≤ access.remaining b c
  properties (h : Handle) (b : σ) :
    access.remaining ((access.properties h).run b).2 c ≤ access.remaining b c

namespace ObjectAccess.CountsDown

variable {access : ObjectAccess σ} {c : Cursor}

theorem bind {α β : Type} {action : Action σ α} {next : α → Action σ β}
    (h : ∀ b, access.remaining (action.run b).2 c ≤ access.remaining b c)
    (hnext : ∀ x b, access.remaining ((next x).run b).2 c ≤ access.remaining b c) (b : σ) :
    access.remaining ((action >>= next).run b).2 c ≤ access.remaining b c := by
  have hfirst := h b
  rcases haction : action.run b with ⟨e | x, b'⟩
  · rw [haction] at hfirst
    rw [Action.run_bind_of_error haction]
    exact hfirst
  · rw [haction] at hfirst
    rw [Action.run_bind_of_ok haction]
    exact Nat.le_trans (hnext x b') hfirst

/-- Reading a record makes no more results of a cursor. -/
theorem getAll (k : access.CountsDown c) (R : Type) [Record R] (h : Handle) (b : σ) :
    access.remaining ((access.getAll R h).run b).2 c ≤ access.remaining b c := by
  have hgetAs (name : String) (t : DataType) (b : σ) :
      access.remaining ((access.getAs h name t).run b).2 c ≤ access.remaining b c := by
    rw [run_getAs]
    exact k.get h name b
  apply bind (k.properties h)
  intro bag
  apply bind
  · intro b
    apply Nat.le_of_eq
    rw [Action.run_ofExcept]
  · intro r b
    split
    · exact Nat.le_refl _
    · apply bind (hgetAs _ _)
      intro path
      exact bind (hgetAs _ _) fun className b => Nat.le_refl _

/-- A record that was read leaves fewer results. -/
theorem nextRecord (k : access.CountsDown c) {R : Type} [Record R] {r : R} {rest : Results}
    {b b' : σ} (h : (Results.nextRecord R access (.ofCursor c)).run b = (.ok (some r, rest), b')) :
    access.remaining b' c < access.remaining b c := by
  obtain ⟨handle, between, hnext, hget, -⟩ := Results.rest_of_record h
  have hread := k.getAll R handle between
  rw [hget] at hread
  exact Nat.lt_of_le_of_lt hread (k.next hnext)

end ObjectAccess.CountsDown

/-- The cursors of the broker in memory count down: each is a list of handles. -/
theorem Broker.countsDown_access (ω : Type) (c : Cursor) :
    (Broker.access.onFirst ω).CountsDown c where
  next {st st' h} hnext := by
    obtain ⟨b, own⟩ := st
    have hrun : (((Broker.next c).run b).1, ((Broker.next c).run b).2, own) = (.ok (some h), st') :=
      hnext
    show (st'.1.cursorRest c).length < (b.cursorRest c).length
    unfold Broker.next at hrun
    rw [Action.run_ofRun] at hrun
    cases hrest : b.cursorRest c with
    | nil =>
      rw [hrest] at hrun
      cases hrun
    | cons first rest =>
      rw [hrest] at hrun
      cases hrun
      -- the list that is shorter by its first handle takes the place of the old one
      obtain ⟨old, hold⟩ : ∃ old, b.cursors[c.id]? = some old := by
        cases hold : b.cursors[c.id]? with
        | none => simp [cursorRest, hold] at hrest
        | some old => exact ⟨old, rfl⟩
      simp [cursorRest, Array.getElem?_modify, hold]
  get h name st := by
    have hkeeps : (Broker.get h name).Keeps fun b : Broker => b.cursorRest c := by
      refine Action.Keeps.bind (fun _ => rfl) fun _ => ?_
      refine Action.Keeps.bind ?_ fun o => Action.Keeps.ofExcept (o.read name)
      exact Action.Keeps.bind Action.Keeps.state fun b => Action.Keeps.require _ _
    exact Nat.le_of_eq (congrArg List.length (hkeeps st.1))
  properties h st := by
    have hkeeps : (Broker.properties h).Keeps fun b : Broker => b.cursorRest c := by
      refine Action.Keeps.bind ?_ fun o => Action.Keeps.pure _
      exact Action.Keeps.bind Action.Keeps.state fun b => Action.Keeps.require _ _
    exact Nat.le_of_eq (congrArg List.length (hkeeps st.1))

namespace Results

variable {R : Type} [Record R] {access : ObjectAccess σ} {r : Results} {b b' : σ}

theorem run_records (c : Cursor) (b : σ) :
    ((ofCursor c).records R access).run b =
      ((ofCursor c).recordsWithin R access (access.remaining b c + 1)).run b :=
  rfl

theorem run_recordsWithin_of_error (fuel : Nat) {e : Error}
    (h : (r.nextRecord R access).run b = (.error e, b')) :
    (r.recordsWithin R access (fuel + 1)).run b = (.error e, b') :=
  Action.run_bind_of_error h

theorem run_recordsWithin_of_none (fuel : Nat) {rest : Results}
    (h : (r.nextRecord R access).run b = (.ok (none, rest), b')) :
    (r.recordsWithin R access (fuel + 1)).run b = (.ok [], b') :=
  Action.run_bind_of_ok h

theorem run_recordsWithin_of_some (fuel : Nat) {rest : Results} {record : R}
    (h : (r.nextRecord R access).run b = (.ok (some record, rest), b')) :
    (r.recordsWithin R access (fuel + 1)).run b =
      (((rest.recordsWithin R access fuel).run b').1.map (record :: ·),
        ((rest.recordsWithin R access fuel).run b').2) := by
  rw [recordsWithin, Action.run_bind_of_ok h]
  dsimp only
  rw [Action.run_bind]
  rcases (rest.recordsWithin R access fuel).run b' with ⟨_ | records, b''⟩ <;> rfl

end Results

namespace Service

variable (s : Service σ) {R : Type} [Record R]

/-- The round trips of a turn that asks for a record. -/
theorem run_nextRecord_journaled (r : Results) (b : σ) (journal : List Event) :
    (r.nextRecord R s.journaled.access).run (b, journal) =
      (((r.nextRecord R s.access).run b).1, ((r.nextRecord R s.access).run b).2,
        journal ++ (s.turn (.record R) r b).trips) := by
  obtain ⟨events, -, hrun⟩ := WrittenDown.nextRecord s R r b
  have htrips : (s.turn (.record R) r b).trips = events := by
    unfold turn Results.Way.ask Results.advance
    dsimp only
    rw [Action.run_ofRun, hrun]
    rcases (r.nextRecord R s.access).run b with ⟨_ | ⟨x, rest⟩, b'⟩ <;> rfl
  rw [htrips, hrun]

theorem turn_record_of_ok {r rest : Results} {b b' : σ} {x : Option R}
    (h : (r.nextRecord R s.access).run b = (.ok (x, rest), b')) :
    (s.turn (.record R) r b).answer = .record (.ok x) ∧ (s.turn (.record R) r b).left = rest ∧
      (s.turn (.record R) r b).finish = b' := by
  have hrun := s.run_nextRecord_journaled (R := R) r b []
  rw [h] at hrun
  unfold turn Results.Way.ask Results.advance
  dsimp only
  rw [Action.run_ofRun, hrun]
  exact ⟨rfl, rfl, rfl⟩

theorem turn_record_of_error {r : Results} {b b' : σ} {e : Error}
    (h : (r.nextRecord R s.access).run b = (.error e, b')) :
    (s.turn (.record R) r b).answer = .record (.error e : Except Error (Option R)) ∧
      (s.turn (.record R) r b).finish = b' := by
  have hrun := s.run_nextRecord_journaled (R := R) r b []
  rw [h] at hrun
  unfold turn Results.Way.ask Results.advance
  dsimp only
  rw [Action.run_ofRun, hrun]
  exact ⟨rfl, rfl⟩

/-- The results of a cursor are read as records, turn by turn: the turns before the final one are
answered with records, and the final one that there are no more, or with an error. -/
structure ReadsRecords (c : Cursor) (b : σ) (records : List R) (last : Except Error Unit)
    (before : List (Turn σ)) (final : Turn σ) : Prop where
  turns : s.turns (List.replicate (records.length + 1) ⟨id, .record R⟩) (.ofCursor c) b =
    before ++ [final]
  read : before.map Turn.answer = records.map fun r => .record (.ok (some r))
  ended : final.answer = .record (last.map fun _ => (none : Option R))

/-- Of a number of turns that ask for records, one is not answered with a record. -/
def EndsWithin (R : Type) [Record R] (c : Cursor) (b : σ) (n : Nat) : Prop :=
  ∃ t ∈ s.turns (List.replicate n ⟨id, .record R⟩) (.ofCursor c) b,
    ∀ r : R, t.answer ≠ .record (.ok (some r))

/-- The turns after a record begin where it was read. -/
theorem turns_record {c : Cursor} {b b' : σ} {r : R} {rest : Results} (n : Nat)
    (h : (Results.nextRecord R s.access (.ofCursor c)).run b = (.ok (some r, rest), b')) :
    s.turns (List.replicate (n + 1) ⟨id, .record R⟩) (.ofCursor c) b =
      s.turn (.record R) (.ofCursor c) b ::
        s.turns (List.replicate n ⟨id, .record R⟩) (.ofCursor c) b' := by
  obtain ⟨-, hleft, hfinish⟩ := s.turn_record_of_ok h
  obtain ⟨-, -, -, -, rfl⟩ := Results.rest_of_record h
  rw [List.replicate_succ, turns]
  show s.turn (.record R) (.ofCursor c) b :: s.turns _ (s.turn (.record R) (.ofCursor c) b).left
    (s.turn (.record R) (.ofCursor c) b).finish = _
  rw [hleft, hfinish]

/-- A cursor that counts down ends within what is stated to be left of it, and one turn more. -/
theorem endsWithin_of_countsDown {c : Cursor} (k : s.access.CountsDown c) {n : Nat} {b : σ}
    (hn : s.access.remaining b c < n) : s.EndsWithin R c b n := by
  induction n generalizing b with
  | zero => exact absurd hn (Nat.not_lt_zero _)
  | succ n ih =>
    have hfirst : s.turn (.record R) (.ofCursor c) b ∈
        s.turns (List.replicate (n + 1) ⟨id, .record R⟩) (.ofCursor c) b := List.mem_cons_self
    rcases hrun : (Results.nextRecord R s.access (.ofCursor c)).run b with
      ⟨e | ⟨_ | r, rest⟩, b'⟩
    · refine ⟨_, hfirst, fun r => ?_⟩
      rw [(s.turn_record_of_error hrun).1]
      simp
    · refine ⟨_, hfirst, fun r => ?_⟩
      rw [(s.turn_record_of_ok hrun).1]
      simp
    · have hfewer := k.nextRecord hrun
      obtain ⟨t, ht, hanswer⟩ := ih (b := b') (by omega)
      refine ⟨t, ?_, hanswer⟩
      rw [s.turns_record n hrun]
      exact List.mem_cons_of_mem _ ht

variable {s} in
/-- A turn that reads a record in front of others. -/
theorem ReadsRecords.cons {c : Cursor} {b b' : σ} {records : List R} {last : Except Error Unit}
    {before : List (Turn σ)} {final : Turn σ} (h : s.ReadsRecords c b' records last before final)
    {r : R} {rest : Results}
    (hrun : (Results.nextRecord R s.access (.ofCursor c)).run b = (.ok (some r, rest), b')) :
    s.ReadsRecords c b (r :: records) last (s.turn (.record R) (.ofCursor c) b :: before)
      final where
  turns := by
    rw [List.length_cons, s.turns_record _ hrun, h.turns]
    rfl
  read := by rw [List.map_cons, List.map_cons, (s.turn_record_of_ok hrun).1, h.read]
  ended := h.ended

variable {s} in
theorem EndsWithin.after_record {c : Cursor} {b b' : σ} {n : Nat} (h : s.EndsWithin R c b (n + 1))
    {r : R} {rest : Results}
    (hrun : (Results.nextRecord R s.access (.ofCursor c)).run b = (.ok (some r, rest), b')) :
    s.EndsWithin R c b' n := by
  obtain ⟨t, ht, hanswer⟩ := h
  rw [s.turns_record n hrun] at ht
  rcases List.mem_cons.mp ht with rfl | ht
  · exact absurd (s.turn_record_of_ok hrun).1 (hanswer r)
  · exact ⟨t, ht, hanswer⟩

/-- Reading all records is a row of turns, if there is fuel for one that does not yield a record. -/
theorem recordsWithin_turns {c : Cursor} {fuel : Nat} {b : σ} (hends : s.EndsWithin R c b fuel) :
    ∃ (records : List R) (last : Except Error Unit) (before : List (Turn σ)) (final : Turn σ),
      s.ReadsRecords c b records last before final ∧
        ((Results.ofCursor c).recordsWithin R s.access fuel).run b =
          (last.map fun _ => records, final.finish) ∧
        ∀ journal, ((Results.ofCursor c).recordsWithin R s.journaled.access fuel).run (b, journal) =
          (last.map fun _ => records, final.finish,
            journal ++ (before ++ [final]).flatMap Turn.trips) := by
  induction fuel generalizing b with
  | zero =>
    obtain ⟨t, ht, -⟩ := hends
    cases ht
  | succ fuel ih =>
    have hjournaled := s.run_nextRecord_journaled (R := R) (.ofCursor c) b
    rcases hrun : (Results.nextRecord R s.access (.ofCursor c)).run b with
      ⟨e | ⟨_ | r, rest⟩, b'⟩
    · -- an error ends the reading
      obtain ⟨hanswer, hfinish⟩ := s.turn_record_of_error hrun
      refine ⟨[], .error e, [], s.turn (.record R) (.ofCursor c) b, ⟨rfl, rfl, hanswer⟩, ?_, ?_⟩
      · rw [Results.run_recordsWithin_of_error fuel hrun, hfinish]
        rfl
      · intro journal
        rw [Results.run_recordsWithin_of_error fuel ((hjournaled journal).trans (by rw [hrun])),
          hfinish]
        simp [Except.map]
    · -- so does the end
      obtain ⟨hanswer, -, hfinish⟩ := s.turn_record_of_ok hrun
      refine ⟨[], .ok (), [], s.turn (.record R) (.ofCursor c) b, ⟨rfl, rfl, hanswer⟩, ?_, ?_⟩
      · rw [Results.run_recordsWithin_of_none fuel hrun, hfinish]
        rfl
      · intro journal
        rw [Results.run_recordsWithin_of_none fuel ((hjournaled journal).trans (by rw [hrun])),
          hfinish]
        simp [Except.map]
    · -- a record is put in front of what is read after it
      obtain ⟨-, -, -, -, rfl⟩ := Results.rest_of_record hrun
      obtain ⟨records, last, before, final, hreads, hplain, hrest⟩ := ih (hends.after_record hrun)
      refine ⟨r :: records, last, _, final, hreads.cons hrun, ?_, ?_⟩
      · rw [Results.run_recordsWithin_of_some fuel hrun, hplain]
        cases last <;> rfl
      · intro journal
        rw [Results.run_recordsWithin_of_some fuel ((hjournaled journal).trans (by rw [hrun])),
          hrest]
        cases last <;> simp [Except.map]

/-- Reading all results of a query as records is a row of turns on its cursor. -/
theorem queryRecords_turns {wql : String} {b b' : σ} {c : Cursor}
    (hquery : (s.connection.query wql).run b = (.ok c, b'))
    (hends : s.EndsWithin R c b' (s.access.remaining b' c + 1)) :
    ∃ (records : List R) (last : Except Error Unit) (before : List (Turn σ)) (final : Turn σ),
      s.ReadsRecords c b' records last before final ∧
        (s.queryRecords R wql).run b = (last.map fun _ => records, final.finish) ∧
        ∀ journal, (s.journaled.queryRecords R wql).run (b, journal) =
          (last.map fun _ => records, final.finish,
            journal ++ .query wql (.ok c) :: (before ++ [final]).flatMap Turn.trips) := by
  obtain ⟨records, last, before, final, hreads, hplain, hjournaled⟩ :=
    s.recordsWithin_turns hends
  refine ⟨records, last, before, final, hreads, ?_, fun journal => ?_⟩
  · have hopen : (s.query wql).run b = (.ok (.ofCursor c), b') := Action.run_bind_of_ok hquery
    rw [queryRecords, Action.run_bind_of_ok hopen, Results.run_records]
    exact hplain
  · have hwitnessed : (s.journaled.connection.query wql).run (b, journal) =
        (.ok c, b', journal ++ [.query wql (.ok c)]) := by
      show (((s.connection.query wql).run b).1, ((s.connection.query wql).run b).2,
        journal ++ [Event.query wql ((s.connection.query wql).run b).1]) = _
      rw [hquery]
    have hopen : (s.journaled.query wql).run (b, journal) =
        (.ok (.ofCursor c), b', journal ++ [.query wql (.ok c)]) := Action.run_bind_of_ok hwitnessed
    rw [queryRecords, Action.run_bind_of_ok hopen, Results.run_records]
    show (Results.recordsWithin R _ (s.access.remaining b' c + 1) _).run _ = _
    rw [hjournaled, List.append_assoc, List.singleton_append]

/-- **Results are read in turn.** In every row of calls on a cursor (`Service.turns`), in whatever
ways they ask, each turn asks the cursor once as long as no turn before it was told the end
(`EndTold`), and makes of the answer what its way does (`Turn.Polls`); from then on every turn is
answered that there are no more results, without a round trip (`Turn.Idle`).  So errors and records
that do not decode are answers to the calls that met them and end nothing.  All results of a query
as records (`Service.queryRecords`) are what the turns yield that ask for records: the records in
order, if the turn after them is told the end, or else the error of that turn (`ReadsRecords`).  For
this the cursor must come to an end, and what is stated to be left of it bound the number of its
records (`EndsWithin`). -/
theorem results_are_read_in_turn :
    (∀ (c : Cursor) (calls : List (Results.Call σ)) (b : σ) (before later : List (Turn σ))
        (t : Turn σ), s.turns calls (.ofCursor c) b = before ++ t :: later →
      (¬ EndTold c before → t.Polls s c) ∧ (EndTold c before → t.Idle) ∧
        (t.left.isDone ↔ EndTold c (before ++ [t]))) ∧
    ∀ (R : Type) [Record R] (wql : String) (b b' : σ),
      (∀ e, (s.connection.query wql).run b = (.error e, b') →
        (s.queryRecords R wql).run b = (.error e, b')) ∧
      ∀ c, (s.connection.query wql).run b = (.ok c, b') →
        s.EndsWithin R c b' (s.access.remaining b' c + 1) →
        ∃ (records : List R) (last : Except Error Unit) (before : List (Turn σ)) (final : Turn σ),
          s.ReadsRecords c b' records last before final ∧
            (s.queryRecords R wql).run b = (last.map fun _ => records, final.finish) ∧
            ∀ journal, (s.journaled.queryRecords R wql).run (b, journal) =
              (last.map fun _ => records, final.finish,
                journal ++ .query wql (.ok c) :: (before ++ [final]).flatMap Turn.trips) := by
  refine ⟨fun c calls b before later t h => s.turns_poll h, fun R _ wql b b' => ⟨?_, ?_⟩⟩
  · intro e hquery
    have hopen : (s.query wql).run b = (.error e, b') := Action.run_bind_of_error hquery
    exact Action.run_bind_of_error hopen
  · intro c hquery hends
    exact s.queryRecords_turns hquery hends

/-! ### A cursor that must not be asked again -/

/-- A connection whose cursor gives the answers of a list, one after another, and an error from then
on.  The objects with an even number are blank; the others have a property of an unexpected type. -/
def cursorConnection : Connection (List (Except Error (Option Handle))) where
  get _ _ := pure (.null, .scalarOf .string)
  put _ _ _ := pure ()
  properties h :=
    pure ⟨if h.id % 2 = 0 then [] else [⟨"InstanceID", .array (.empty .text), .scalarOf .string⟩]⟩
  spawn h := pure h
  clone h := pure h
  signature _ _ := pure (none, none)
  text _ := pure ""
  next _ := Action.ofRun fun
    | [] => (.error (.remote "cursor used after its end"), [])
    | answer :: rest => (answer, rest)
  depth _ := 0
  remaining answers _ := answers.length
  query _ := pure ⟨0⟩
  enumerate _ := pure ⟨0⟩
  fetch _ := pure none
  invoke _ _ _ := pure none

def cursorSession : Service (List (Except Error (Option Handle))) :=
  ⟨cursorConnection, .standard, ⟨0, fun _ _ => ⟨0⟩⟩⟩

theorem cursorSession_countsDown : cursorSession.access.CountsDown ⟨0⟩ where
  next {answers answers' h} hnext := by
    cases answers with
    | nil => cases hnext
    | cons answer rest =>
      cases hnext
      exact Nat.lt_succ_self _
  get _ _ _ := Nat.le_refl _
  properties _ _ := Nat.le_refl _

/-- An object, a failure, an object that does not decode, the end; and a call more of each kind. -/
def cursorTurns : List (Turn (List (Except Error (Option Handle)))) :=
  cursorSession.turns
    [⟨id, .object⟩, ⟨id, .item⟩, ⟨id, .record Element⟩, ⟨id, .object⟩, ⟨id, .item⟩,
      ⟨id, .record Element⟩]
    (.ofCursor ⟨0⟩)
    [.ok (some ⟨0⟩), .error (.remote "busy"), .ok (some ⟨1⟩), .ok none]

/-- Of the six calls the first four ask the cursor and meet all that it can answer; the last two
leave it alone.  Two more objects are read as records. -/
theorem cursor_is_left_alone_after_its_end :
    cursorTurns.map Turn.answer =
        [.object (.ok (some ⟨0⟩)), .item (some (.error (.remote "busy"))),
          .record (.error (.typeConversion "VT_ARRAY|VT_BSTR" "String") :
            Except Error (Option Element)),
          .object (.ok none), .item none, .record (.ok (none : Option Element))] ∧
      (∃ before t, cursorTurns = before ++ [t] ∧ EndTold ⟨0⟩ before ∧ t.Idle ∧ t.left.isDone) ∧
      ∃ records : List Element, ∃ before final,
        cursorSession.ReadsRecords ⟨0⟩ [.ok (some ⟨0⟩), .ok (some ⟨2⟩), .ok none] records (.ok ())
          before final ∧ records.length = 2 := by
  obtain ⟨hturns, hrecords⟩ := cursorSession.results_are_read_in_turn
  refine ⟨rfl, ?_, ?_⟩
  · have hsplit : cursorTurns = cursorTurns.take 5 ++ cursorTurns[5] :: [] := rfl
    have htold : EndTold ⟨0⟩ (cursorTurns.take 5) :=
      ⟨cursorTurns[3], .tail _ (.tail _ (.tail _ (.head _))), .head _⟩
    obtain ⟨-, hidle, hdone⟩ := hturns _ _ _ _ _ _ hsplit
    refine ⟨_, _, hsplit, htold, hidle htold, hdone.mpr ?_⟩
    obtain ⟨t, ht, htrip⟩ := htold
    exact ⟨t, List.mem_append_left _ ht, htrip⟩
  · obtain ⟨-, hread⟩ := hrecords Element "SELECT" [.ok (some ⟨0⟩), .ok (some ⟨2⟩), .ok none]
      [.ok (some ⟨0⟩), .ok (some ⟨2⟩), .ok none]
    obtain ⟨records, last, before, final, hreads, hrun, -⟩ := hread ⟨0⟩ rfl
      (cursorSession.endsWithin_of_countsDown cursorSession_countsDown (Nat.lt_succ_self _))
    have hboth : (cursorSession.queryRecords Element "SELECT").run
        [.ok (some ⟨0⟩), .ok (some ⟨2⟩), .ok none] = (.ok [Record.blank, Record.blank], []) := rfl
    cases last with
    | error e => cases hboth.symm.trans hrun
    | ok =>
      have hlist : Except.ok [Record.blank, Record.blank] = Except.ok records :=
        congrArg Prod.fst (hboth.symm.trans hrun)
      obtain rfl := Except.ok.inj hlist
      exact ⟨_, before, final, hreads, rfl⟩

end Service

end CimBroker
