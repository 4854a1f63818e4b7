import Brainfuck.Proofs.Causality
import Brainfuck.Proofs.Consoles

/-!
# Sessions on a longer input

A session reads its input from the front and leaves the rest to the next program. A program that
does not meet the end of the input does not notice whether more bytes follow.

## Main Definitions

* `Feed.IsRestOf` — what may be left of a feed
* `ConsolePair.ofConsole` — a console as a pair
* `Console.shown` — what the sink has received when the buffer has been delivered

## Main Results

* `Console.flush_fed`, `Console.put_fed`, `Console.close_fed` — a writer does not see the input
* `ConsolePair.steps_ofConsole` — a pair whose sides are both there is a console
* `Console.keeps_rest`, `Session.rest_of_run` — a run leaves a rest of its input
* `Console.follows_extended`, `Session.run_extended` — a run on a longer input
* `Session.printed_run`, `Session.printed_run_extended` — a run prints more, and on a longer input
  no less
-/

namespace Brainfuck

namespace Feed

/-- What may be left of a feed. -/
structure IsRestOf (rest f : Feed) : Prop where
  suffix : rest.bytes <:+ f.bytes
  failure_eq : rest.failure = f.failure

variable {f g : Feed}

theorem IsRestOf.refl (f : Feed) : f.IsRestOf f :=
  ⟨List.suffix_refl _, rfl⟩

theorem IsRestOf.trans {rest : Feed} (h : rest.IsRestOf f) (h' : f.IsRestOf g) : rest.IsRestOf g :=
  ⟨h.suffix.trans h'.suffix, h.failure_eq.trans h'.failure_eq⟩

theorem IsRestOf.stop_eq {rest : Feed} (h : rest.IsRestOf f) : rest.stop = f.stop := by
  unfold stop
  rw [h.failure_eq]

theorem isRestOf_next (f : Feed) : f.next.2.IsRestOf f := by
  obtain ⟨bytes, failure⟩ := f
  cases bytes with
  | nil => exact .refl _
  | cons b rest => exact ⟨List.suffix_cons b rest, rfl⟩

/-- A feed gives its first byte, whatever follows the last one. -/
theorem next_extended (h : f.bytes ≠ []) (more : Bytes) :
    (f.extended more).next = (f.next.1, f.next.2.extended more) := by
  obtain ⟨bytes, failure⟩ := f
  cases bytes with
  | nil => exact absurd rfl h
  | cons b rest => rfl

theorem next_of_nil (h : f.bytes = []) : f.next = (.error f.stop, f) := by
  unfold next
  rw [h]

end Feed

/-- What a sink takes of some bytes it also takes of more. -/
theorem Sink.received_write_push (sink : Sink) (bytes : Array UInt8) (b : UInt8) :
    (sink.write bytes).2.received.toList <+: (sink.write (bytes.push b)).2.received.toList := by
  have hroom : sink.room bytes.size ≤ sink.room (bytes.push b).size := by
    unfold room
    rw [Array.size_push]
    split
    · exact Nat.le_succ _
    · omega
  have htake : sink.room bytes.size ≤ bytes.size := by
    unfold room
    split
    · exact Nat.le_refl _
    · exact Nat.min_le_left _ _
  simp only [write, Array.toList_append, List.prefix_append_right_inj, Array.toList_extract,
    Array.toList_push, List.extract_eq_take_drop, Nat.sub_zero, List.drop_zero]
  have hfront : bytes.toList.take (sink.room bytes.size) =
      (bytes.toList ++ [b]).take (sink.room bytes.size) :=
    (List.take_append_of_le_length htake).symm
  rw [hfront]
  exact List.take_prefix_take_left hroom

namespace Console

/-- A delivery does not see the input. -/
theorem flush_fed (c : Console) (feed : Feed) :
    (c.fed feed).flush = (c.flush.1, c.flush.2.fed feed) := by
  obtain ⟨feed', ⟨pending, failure, closed, muted⟩, sink⟩ := c
  cases failure with
  | some e => rfl
  | none =>
      by_cases hempty : pending.isEmpty = true
      · simp [fed, flush, hempty]
      cases muted with
      | true => simp [fed, flush, hempty]
      | false =>
          by_cases htaken : (sink.write pending).1 = pending.size
          · simp [fed, flush, hempty, htaken]
          · simp [fed, flush, hempty, htaken]

/-- A write does not see the input. -/
theorem put_fed (c : Console) (feed : Feed) (b : UInt8) :
    (c.fed feed).put b = ((c.put b).1, (c.put b).2.fed feed) := by
  have hflush := c.flush_fed feed
  have hwriter : (c.fed feed).writer = c.writer := rfl
  unfold put
  rw [hflush, hwriter]
  split
  · rfl
  · split
    · rfl
    · split
      · rfl
      · rcases c.flush with ⟨e | _, c'⟩
        · rfl
        · rfl

/-- A close does not see the input. -/
theorem close_fed (c : Console) (feed : Feed) :
    (c.fed feed).close = (c.close.1, c.close.2.fed feed) := by
  have hwriter : (c.fed feed).writer = c.writer := rfl
  unfold close
  rw [hwriter]
  split
  · rfl
  · exact flush_fed { c with writer := { c.writer with closed := true } } feed

theorem feed_put (c : Console) (b : UInt8) : (c.put b).2.feed = c.feed := by
  have hput := congrArg (fun answer => answer.2.feed) (c.put_fed c.feed b)
  exact hput

/-- What a read does before it takes a byte. -/
def beforeGet (c : Console) : Except StreamError Unit × Console :=
  if c.writer.closed then (.ok (), c) else c.flush

theorem beforeGet_fed (c : Console) (feed : Feed) :
    (c.fed feed).beforeGet = (c.beforeGet.1, c.beforeGet.2.fed feed) := by
  have hflush := c.flush_fed feed
  have hwriter : (c.fed feed).writer = c.writer := rfl
  unfold beforeGet
  rw [hflush, hwriter]
  split
  · rfl
  · rfl

theorem feed_beforeGet {c c' : Console} {r : Except StreamError Unit}
    (h : c.beforeGet = (r, c')) : c'.feed = c.feed := by
  have hbefore := congrArg (fun answer => answer.2.feed) (c.beforeGet_fed c.feed)
  have hfeed : c.beforeGet.2.feed = c.feed := hbefore
  rwa [h] at hfeed

theorem get_of_error {c c' : Console} {e : StreamError} (h : c.beforeGet = (.error e, c')) :
    c.get = (.error e, c') := by
  unfold beforeGet at h
  simp only [get, h]

theorem get_of_ok {c c' : Console} (h : c.beforeGet = (.ok (), c')) :
    c.get = (c'.feed.next.1, c'.fed c'.feed.next.2) := by
  unfold beforeGet at h
  simp only [get, h]
  rfl

/-- Every operation of a console leaves a rest of its input. -/
theorem keeps_rest (f : Feed) :
    channel.Keeps (fun c => c.feed.IsRestOf f) fun _ => True where
  get := by
    intro c hc
    show c.get.2.feed.IsRestOf f
    rcases hbefore : c.beforeGet with ⟨e | _, c'⟩
    · rw [get_of_error hbefore, feed_beforeGet hbefore]
      exact hc
    · rw [get_of_ok hbefore]
      refine (Feed.isRestOf_next c'.feed).trans ?_
      rw [feed_beforeGet hbefore]
      exact hc
  put := by
    intro c b hc
    show (c.put b).2.feed.IsRestOf f
    rw [feed_put]
    exact hc
  get_error := fun _ _ => trivial
  put_error := fun _ _ _ => trivial

/-! ### What can be seen of a console -/

/-- What the sink has received when the buffer has been delivered. -/
def shown (c : Console) : Bytes :=
  c.flush.2.sink.received.toList

theorem shown_fed (c : Console) (feed : Feed) : (c.fed feed).shown = c.shown := by
  unfold shown
  rw [flush_fed]
  rfl

theorem shown_prefix_fed (c : Console) (feed : Feed) : c.shown <+: (c.fed feed).shown :=
  ⟨[], by rw [shown_fed, List.append_nil]⟩

/-- After a delivery there is no more to be seen. -/
theorem shown_flush (c : Console) : c.flush.2.shown = c.shown := by
  obtain ⟨feed, ⟨pending, failure, closed, muted⟩, sink⟩ := c
  cases failure with
  | some e => rfl
  | none =>
      by_cases hempty : pending.isEmpty = true
      · simp [shown, flush, hempty]
      cases muted with
      | true => simp [shown, flush, hempty]
      | false =>
          by_cases htaken : (sink.write pending).1 = pending.size
          · simp [shown, flush, hempty, htaken]
          · simp [shown, flush, hempty, htaken]

/-- One more byte in the buffer takes nothing away from what the sink receives. -/
theorem shown_push (c : Console) (b : UInt8) : c.shown <+: (c.push b).shown := by
  obtain ⟨feed, ⟨pending, failure, closed, muted⟩, sink⟩ := c
  cases failure with
  | some e => exact List.prefix_rfl
  | none =>
      have hfull : (pending.push b).isEmpty = false := by simp
      by_cases hempty : pending.isEmpty = true
      · obtain rfl : pending = #[] := Array.isEmpty_iff.mp hempty
        exact received_flush (push ⟨feed, ⟨#[], none, closed, muted⟩, sink⟩ b)
      cases muted with
      | true => simp [shown, push, flush, hempty]
      | false =>
          have hshown (t : Array UInt8) (ht : t.isEmpty = false) :
              shown ⟨feed, ⟨t, none, closed, false⟩, sink⟩ = (sink.write t).2.received.toList := by
            by_cases htaken : (sink.write t).1 = t.size
            · simp [shown, flush, ht, htaken]
            · simp [shown, flush, ht, htaken]
          have hpushed : (push ⟨feed, ⟨pending, none, closed, false⟩, sink⟩ b).shown = _ :=
            hshown (pending.push b) hfull
          rw [hshown pending (Bool.eq_false_iff.mpr hempty), hpushed]
          exact sink.received_write_push pending b

theorem shown_put (c : Console) (b : UInt8) : c.shown <+: (c.put b).2.shown := by
  have hflush := c.shown_flush
  unfold put
  split
  · exact List.prefix_rfl
  · split
    · exact List.prefix_rfl
    · split
      · exact c.shown_push b
      · generalize c.flush = result at hflush
        rcases result with ⟨e | _, c'⟩
        · exact hflush ▸ List.prefix_rfl
        · exact hflush ▸ c'.shown_push b

theorem shown_beforeGet (c : Console) : c.beforeGet.2.shown = c.shown := by
  unfold beforeGet
  split
  · rfl
  · exact c.shown_flush

theorem shown_get (c : Console) : c.get.2.shown = c.shown := by
  have hbefore := c.shown_beforeGet
  rcases hresult : c.beforeGet with ⟨e | _, c'⟩
  · rw [get_of_error hresult, ← hbefore, hresult]
  · rw [get_of_ok hresult, ← hbefore, hresult]
    exact c'.shown_fed _

/-- Every operation of a console adds to what can be seen of it. -/
theorem keeps_shown (t : Bytes) : channel.Keeps (fun c => t <+: c.shown) fun _ => True where
  get := by
    intro c hc
    show t <+: c.get.2.shown
    rw [shown_get]
    exact hc
  put := fun b hc => hc.trans (shown_put _ b)
  get_error := fun _ _ => trivial
  put_error := fun _ _ _ => trivial

/-! ### Longer inputs -/

/-- A console answers like one with a longer input, until it meets the end of its own. What can be
seen of it then can be seen of the other one from then on. -/
theorem follows_extended (more : Bytes) :
    channel.Follows channel (fun c c' => c' = c.extended more)
      fun d e c c' => (d = .input ∧ e = c.feed.stop) ∧ c.shown <+: c'.shown where
  get := by
    rintro c _ rfl
    show SameAnswer _ _ c.get (c.extended more).get
    have hlonger : (c.extended more).beforeGet =
        (c.beforeGet.1, c.beforeGet.2.fed (c.feed.extended more)) := c.beforeGet_fed _
    rcases hbefore : c.beforeGet with ⟨e | _, c'⟩
    · rw [hbefore, ← feed_beforeGet hbefore] at hlonger
      rw [get_of_error hbefore, get_of_error hlonger]
      exact .same rfl
    · rw [hbefore, ← feed_beforeGet hbefore] at hlonger
      rw [get_of_ok hbefore, get_of_ok hlonger]
      by_cases hnil : c'.feed.bytes = []
      · rw [Feed.next_of_nil hnil]
        exact .excused ⟨⟨rfl, rfl⟩, c'.shown_prefix_fed _⟩
      · have hnext : (c'.fed (c'.feed.extended more)).feed.next =
            (c'.feed.next.1, c'.feed.next.2.extended more) := Feed.next_extended hnil more
        rw [hnext]
        exact .same rfl
  put := by
    rintro c _ b rfl
    show SameAnswer _ _ (c.put b) ((c.extended more).put b)
    have hlonger : (c.extended more).put b =
        ((c.put b).1, (c.put b).2.fed (c.feed.extended more)) := c.put_fed _ b
    rw [hlonger, ← c.feed_put b]
    exact .same rfl
  lasts := by
    intro d e c
    have hkeeps := keeps_shown c.shown
    exact
      { get := fun h => ⟨h.1, hkeeps.get h.2⟩
        put := fun b h => ⟨h.1, hkeeps.put b h.2⟩
        get_error := fun _ _ => trivial
        put_error := fun _ _ _ => trivial }

end Console

/-! ### Both sides of a console -/

namespace ConsolePair

/-- A console as a pair. -/
def ofConsole (c : Console) : ConsolePair where
  reader := some c.feed
  writer := some (c.writer, c.sink)

/-- A step of the writer that does not see the input is one of the console. -/
theorem onWriter_ofConsole {step : Console → Except StreamError Unit × Console}
    (hstep : ∀ c feed, step (c.fed feed) = ((step c).1, (step c).2.fed feed)) (c : Console) :
    (ofConsole c).onWriter step = .ok ((step c).1, ofConsole (step c).2) := by
  have hwriter : (ofConsole c).onWriter step = .ok ((step (c.fed .empty)).1,
      { reader := some c.feed,
        writer := some ((step (c.fed .empty)).2.writer, (step (c.fed .empty)).2.sink) }) := rfl
  have hfeed : (step c).2.feed = c.feed := congrArg (fun answer => answer.2.feed) (hstep c c.feed)
  rw [hwriter, hstep, ← hfeed]
  rfl

/-- A pair whose sides are both there is a console. -/
theorem steps_ofConsole (c : Console) :
    (ofConsole c).get = .ok (c.get.1, ofConsole c.get.2) ∧
      (∀ b, (ofConsole c).put b = .ok ((c.put b).1, ofConsole (c.put b).2)) ∧
      (ofConsole c).flush = .ok (c.flush.1, ofConsole c.flush.2) ∧
      (ofConsole c).close = .ok (c.close.1, ofConsole c.close.2) := by
  refine ⟨rfl, ?_, ?_, ?_⟩
  · intro b
    exact onWriter_ofConsole (fun c feed => c.put_fed feed b) c
  · exact onWriter_ofConsole Console.flush_fed c
  · exact onWriter_ofConsole Console.close_fed c

end ConsolePair

namespace Session

theorem extended_nil (s : Session) : s.extended [] = s := by
  have hfeed : s.console.feed.extended [] = s.console.feed := by
    rw [Feed.extended, List.append_nil]
  rw [extended, hfeed]
  rfl

theorem extended_extended (s : Session) (more more' : Bytes) :
    (s.extended more).extended more' = s.extended (more ++ more') := by
  have hfeed : (s.console.feed.extended more).extended more' =
      s.console.feed.extended (more ++ more') := by
    simp only [Feed.extended, List.append_assoc]
  show s.fed ((s.console.feed.extended more).extended more') = _
  rw [hfeed, extended]

theorem settle_fed (result : Except SessionError Unit) (c : Console) (feed : Feed) :
    settle result (c.fed feed) = ((settle result c).1, (settle result c).2.fed feed) := by
  unfold settle
  rw [c.flush_fed feed]
  rcases c.flush with ⟨e' | _, c'⟩
  · rcases result with e | _
    · rfl
    · rfl
  · rcases result with e | _
    · rfl
    · rfl

theorem feed_settle (result : Except SessionError Unit) (c : Console) :
    (settle result c).2.feed = c.feed := by
  have hsettle := congrArg (fun answer => answer.2.feed) (settle_fed result c c.feed)
  exact hsettle

theorem received_settle (result : Except SessionError Unit) (c : Console) :
    (settle result c).2.sink.received.toList = c.shown := by
  unfold settle Console.shown
  rcases c.flush with ⟨e' | _, c'⟩
  · rcases result with e | _
    · rfl
    · rfl
  · rcases result with e | _
    · rfl
    · rfl

theorem console_compile (s : Session) (source : Bytes) :
    (s.compile source).2.console = s.console :=
  rfl

theorem compile_fed (s : Session) (source : Bytes) (feed : Feed) :
    (s.fed feed).compile source = ((s.compile source).1, (s.compile source).2.fed feed) :=
  rfl

variable {s : Session} {fuel : Nat}

theorem rest_of_execute {code : Code} {r : Except SessionError Unit} {s' : Session}
    (hrun : s.execute fuel code = some (r, s')) : s'.console.feed.IsRestOf s.console.feed := by
  rw [execute_eq] at hrun
  obtain ⟨⟨r₁, m⟩, hexecute, hresult⟩ := Option.map_eq_some_iff.mp hrun
  obtain ⟨-, rfl⟩ := Prod.mk.inj hresult
  have hkept := execute_kept (Console.keeps_rest s.console.feed) (Feed.IsRestOf.refl _) hexecute
  show (settle _ m.world).2.feed.IsRestOf s.console.feed
  rw [feed_settle]
  exact hkept.world

/-- A program on a longer input does the same, unless it meets the end of the shorter one. -/
theorem execute_extended (s : Session) (fuel : Nat) (code : Code) (more : Bytes) :
    (∃ i s', s.execute fuel code = some (.error (.run (.input i s.console.feed.stop)), s')) ∨
      (s.extended more).execute fuel code =
        (s.execute fuel code).map fun (r, s') => (r, s'.extended more) := by
  have hagree := execute_agree (Console.follows_extended more) rfl code fuel s.tape (w := s.console)
  have hkept {result : Except RunError Unit × Machine Console}
      (h : Brainfuck.execute Console.channel code fuel s.tape s.console = some result) :=
    (execute_kept (Console.keeps_rest s.console.feed) (Feed.IsRestOf.refl _) h).world
  have htape : (s.extended more).tape = s.tape := rfl
  have hconsole : (s.extended more).console = s.console.extended more := rfl
  rw [execute_eq, execute_eq, htape, hconsole]
  generalize Brainfuck.execute Console.channel code fuel s.tape s.console = a,
    Brainfuck.execute Console.channel code fuel s.tape (s.console.extended more) = b at hagree hkept
  cases hagree with
  | none => exact .inr rfl
  | @same r m c' hc' =>
      subst hc'
      refine .inr ?_
      have hworld : (m.onto (m.world.extended more)).world =
          m.world.fed (m.world.feed.extended more) := rfl
      have hfeed := feed_settle (r.mapError .run) m.world
      simp only [Option.map_some, hworld, settle_fed, extended, ← hfeed]
      rfl
  | @excused e d cause m w' b hcause hstop hlasts =>
      obtain ⟨⟨rfl, rfl⟩, -⟩ := hstop
      obtain ⟨i, rfl⟩ := RunError.eq_failure_of_cause? hcause
      have hrest := (hkept rfl).stop_eq
      rw [← hrest]
      exact .inl ⟨i, _, rfl⟩

/-- A program adds to what the sink has received. -/
theorem printed_execute {code : Code} {r : Except SessionError Unit} {s' : Session}
    (hrun : s.execute fuel code = some (r, s')) : s.printed <+: s'.printed := by
  rw [execute_eq] at hrun
  obtain ⟨⟨r₁, m⟩, hexecute, hresult⟩ := Option.map_eq_some_iff.mp hrun
  obtain ⟨-, rfl⟩ := Prod.mk.inj hresult
  have hkept := execute_kept (Console.keeps_shown s.console.shown) List.prefix_rfl hexecute
  show _ <+: (settle _ m.world).2.sink.received.toList
  rw [received_settle]
  exact s.console.received_flush.trans hkept.world

/-- What a program has printed by the end of its input is printed on a longer one as well. -/
theorem printed_execute_extended {code : Code} {more : Bytes} {r r' : Except SessionError Unit}
    {s₁ s₂ : Session} (hrun : s.execute fuel code = some (r, s₁))
    (hrun' : (s.extended more).execute fuel code = some (r', s₂)) :
    s₁.printed <+: s₂.printed := by
  have hagree := execute_agree (Console.follows_extended more) rfl code fuel s.tape (w := s.console)
  rw [execute_eq] at hrun hrun'
  obtain ⟨⟨r₁, m⟩, hexecute, hresult⟩ := Option.map_eq_some_iff.mp hrun
  obtain ⟨⟨r₂, m'⟩, hexecute', hresult'⟩ := Option.map_eq_some_iff.mp hrun'
  obtain ⟨-, rfl⟩ := Prod.mk.inj hresult
  obtain ⟨-, rfl⟩ := Prod.mk.inj hresult'
  have hlonger : Brainfuck.execute Console.channel code fuel s.tape (s.console.extended more) =
      some (r₂, m') := hexecute'
  rw [hexecute, hlonger] at hagree
  show (settle _ m.world).2.sink.received.toList <+: (settle _ m'.world).2.sink.received.toList
  rw [received_settle, received_settle]
  cases hagree with
  | same hworld =>
      subst hworld
      exact m.world.shown_prefix_fed _
  | excused hcause hstop hlasts => exact (hlasts _ _ rfl).2

theorem rest_of_run {source : Bytes} {r : Except SessionError Unit} {s' : Session}
    (hrun : s.run fuel source = some (r, s')) : s'.console.feed.IsRestOf s.console.feed := by
  have hconsole := s.console_compile source
  unfold run at hrun
  generalize s.compile source = compiled at hrun hconsole
  rcases compiled with ⟨e | p, s₁⟩
  · cases hrun
    rw [← hconsole]
    exact .refl _
  · rw [← hconsole]
    exact rest_of_execute hrun

theorem printed_run {source : Bytes} {r : Except SessionError Unit} {s' : Session}
    (hrun : s.run fuel source = some (r, s')) : s.printed <+: s'.printed := by
  have hconsole := s.console_compile source
  unfold run at hrun
  generalize s.compile source = compiled at hrun hconsole
  rcases compiled with ⟨e | p, s₁⟩
  · cases hrun
    rw [printed, ← hconsole]
    exact List.prefix_rfl
  · rw [printed, ← hconsole]
    exact printed_execute hrun

theorem printed_run_extended {source more : Bytes} {r r' : Except SessionError Unit}
    {s₁ s₂ : Session} (hrun : s.run fuel source = some (r, s₁))
    (hrun' : (s.extended more).run fuel source = some (r', s₂)) :
    s₁.printed <+: s₂.printed := by
  have hlonger : (s.extended more).compile source =
      ((s.compile source).1, (s.compile source).2.extended more) := s.compile_fed source _
  unfold run at hrun hrun'
  rw [hlonger] at hrun'
  generalize s.compile source = compiled at hrun hrun'
  rcases compiled with ⟨e | p, s'⟩
  · cases hrun
    cases hrun'
    exact List.prefix_rfl
  · exact printed_execute_extended hrun hrun'

/-- A source on a longer input does the same, unless it meets the end of the shorter one. -/
theorem run_extended (s : Session) (fuel : Nat) (source more : Bytes) :
    (∃ i s', s.run fuel source = some (.error (.run (.input i s.console.feed.stop)), s')) ∨
      (s.extended more).run fuel source =
        (s.run fuel source).map fun (r, s') => (r, s'.extended more) := by
  have hconsole := s.console_compile source
  have hlonger : (s.extended more).compile source =
      ((s.compile source).1, (s.compile source).2.fed (s.console.feed.extended more)) :=
    s.compile_fed source _
  unfold run
  rw [hlonger, ← hconsole]
  rcases s.compile source with ⟨e | p, s₁⟩
  · exact .inr rfl
  · exact s₁.execute_extended fuel p.code more

end Session

end Brainfuck
