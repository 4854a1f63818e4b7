import Brainfuck.Proofs.Consoles
import Brainfuck.Proofs.Stepping

/-!
# Watched sessions

A session under the eyes of a watcher delivers its output before every instruction. On a console
whose sink takes every byte this changes nothing but the moment at which bytes arrive: a watched run
is the plain run up to the instruction at which the watcher ends it.

## Main Definitions

* `Console.Unlimited` — a console whose sink takes every byte
* `Console.settled` — a console with all its output delivered
* `Console.Alike` — consoles that differ in undelivered output only
* `Machine.Watched` — a machine of a watched run and the same machine of the plain run
* `snapshotAt` — what is shown of an instruction of the plain run
* `watcherAt` — the state of a watcher before an instruction of the plain run

## Main Results

* `Console.follows_alike` — a program cannot tell consoles that are alike
* `Machine.turn_watched_of_end`, `Machine.turn_watched_of_proceed` — one turn of a watched run
* `Machine.turn_watched_eq_ok`, `Machine.turn_watched_eq_error` — what follows from its outcome
* `exists_after_of_watched`, `exists_watched_of_after` — any number of turns
* `Session.watch_of_quiet`, `Session.watch_of_halt` — a watcher that lets the run go on, and one
  that ends it

## Design Notes

What a watcher sees is said in terms of the plain run alone, which has its own console and delivers
nothing for the watcher. The sink that the watcher sees is then that of this console with all
output delivered.
-/

namespace Brainfuck

/-! ## Consoles without a limit -/

namespace Console

/-- The sink takes every byte, and no delivery has failed. -/
structure Unlimited (c : Console) : Prop where
  limit_eq : c.sink.limit = none
  failure_eq : c.writer.failure = none

/-- The console with all its output delivered, or dropped if it is muted. -/
def settled (c : Console) : Console :=
  { c with
    writer := { c.writer with pending := #[] }
    sink :=
      { c.sink with
        received := c.sink.received ++ if c.writer.muted then #[] else c.writer.pending } }

/-- Two consoles that take every byte are the same once their output is delivered. -/
structure Alike (c c' : Console) : Prop where
  unlimited : c.Unlimited
  unlimited' : c'.Unlimited
  settled_eq : c.settled = c'.settled

variable {c c' : Console}

@[simp] theorem settled_settled (c : Console) : c.settled.settled = c.settled := by
  obtain ⟨feed, ⟨pending, failure, closed, muted⟩, sink⟩ := c
  cases muted with
  | true => simp [settled]
  | false => simp [settled]

/-- A byte that is written after a delivery arrives behind the bytes delivered. -/
theorem settled_push_settled (c : Console) (b : UInt8) :
    (c.settled.push b).settled = (c.push b).settled := by
  obtain ⟨feed, ⟨pending, failure, closed, muted⟩, limit, received⟩ := c
  cases muted with
  | true => simp [settled, push]
  | false => simp [settled, push]

namespace Unlimited

theorem settled (h : c.Unlimited) : c.settled.Unlimited :=
  ⟨h.limit_eq, h.failure_eq⟩

theorem flush (h : c.Unlimited) : c.flush = (.ok (), c.settled) := by
  obtain ⟨feed, ⟨pending, failure, closed, muted⟩, limit, received⟩ := c
  obtain ⟨rfl, rfl⟩ := h
  by_cases hempty : pending = #[]
  · simp [Console.flush, Console.settled, hempty]
  cases muted with
  | true => simp [Console.flush, Console.settled, hempty]
  | false => simp [Console.flush, Console.settled, hempty, Sink.write, Sink.room]

/-- A byte is refused by a closed writer only. -/
theorem put_of_closed (h : c.writer.closed = true) (b : UInt8) :
    c.put b = (.error .writerClosed, c) := by
  rw [Console.put, if_pos h]

/-- An open writer takes a byte, behind all that was written before. -/
theorem put_of_open (h : c.Unlimited) (hopen : c.writer.closed = false) (b : UInt8) :
    ∃ c₁ : Console, c.put b = (.ok (), c₁) ∧ c₁.Unlimited ∧
      c₁.settled = (c.settled.push b).settled := by
  by_cases hroom : c.writer.pending.size < bufferSize
  · refine ⟨c.push b, ?_, ⟨h.limit_eq, h.failure_eq⟩, (settled_push_settled c b).symm⟩
    simp [Console.put, hopen, h.failure_eq, hroom]
  · refine ⟨c.settled.push b, ?_, ⟨h.limit_eq, h.failure_eq⟩, rfl⟩
    simp [Console.put, hopen, h.failure_eq, hroom, h.flush]

/-- A read takes the next byte of the feed, and leaves the output as it is. -/
theorem get (h : c.Unlimited) :
    ∃ c₁ : Console, c.get = (c.feed.next.1, c₁) ∧ c₁.Unlimited ∧
      c₁.settled = { c.settled with feed := c.feed.next.2 } := by
  cases hclosed : c.writer.closed with
  | true =>
      refine ⟨{ c with feed := c.feed.next.2 }, ?_, ⟨h.limit_eq, h.failure_eq⟩, rfl⟩
      rw [Console.get, if_pos hclosed]
  | false =>
      refine ⟨{ c.settled with feed := c.feed.next.2 }, ?_, ⟨h.limit_eq, h.failure_eq⟩, ?_⟩
      · simp only [Console.get, hclosed, h.flush]
        rfl
      · show { c.settled.settled with feed := c.feed.next.2 } =
          { c.settled with feed := c.feed.next.2 }
        rw [settled_settled]

end Unlimited

namespace Alike

theorem refl (h : c.Unlimited) : c.Alike c :=
  ⟨h, h, rfl⟩

theorem feed_eq (h : c.Alike c') : c.feed = c'.feed :=
  congrArg (·.feed) h.settled_eq

theorem closed_eq (h : c.Alike c') : c.writer.closed = c'.writer.closed :=
  congrArg (·.writer.closed) h.settled_eq

/-- Consoles stay alike if one of them delivers its output. -/
theorem settled (h : c.Alike c') : c.Alike c'.settled :=
  ⟨h.unlimited, h.unlimited'.settled, h.settled_eq.trans c'.settled_settled.symm⟩

theorem get (h : c.Alike c') (Excused : StreamError → Console → Console → Prop) :
    SameAnswer Alike Excused (channel.get c) (channel.get c') := by
  obtain ⟨c₁, hget, hunlimited, hsettled⟩ := h.unlimited.get
  obtain ⟨c₁', hget', hunlimited', hsettled'⟩ := h.unlimited'.get
  have hanswer : channel.get c = (c.feed.next.1, c₁) := hget
  have hanswer' : channel.get c' = (c.feed.next.1, c₁') := by
    rw [h.feed_eq]
    exact hget'
  rw [hanswer, hanswer']
  refine .same ⟨hunlimited, hunlimited', ?_⟩
  rw [hsettled, hsettled', h.settled_eq, h.feed_eq]

theorem put (h : c.Alike c') (b : UInt8) (Excused : StreamError → Console → Console → Prop) :
    SameAnswer Alike Excused (channel.put b c) (channel.put b c') := by
  cases hclosed : c.writer.closed with
  | true =>
      have hanswer : channel.put b c = (.error .writerClosed, c) :=
        Unlimited.put_of_closed hclosed b
      have hanswer' : channel.put b c' = (.error .writerClosed, c') :=
        Unlimited.put_of_closed (h.closed_eq.symm.trans hclosed) b
      rw [hanswer, hanswer']
      exact .same h
  | false =>
      obtain ⟨c₁, hput, hunlimited, hsettled⟩ := h.unlimited.put_of_open hclosed b
      obtain ⟨c₁', hput', hunlimited', hsettled'⟩ :=
        h.unlimited'.put_of_open (h.closed_eq.symm.trans hclosed) b
      have hanswer : channel.put b c = (.ok (), c₁) := hput
      have hanswer' : channel.put b c' = (.ok (), c₁') := hput'
      rw [hanswer, hanswer']
      refine .same ⟨hunlimited, hunlimited', ?_⟩
      rw [hsettled, hsettled', h.settled_eq]

end Alike

/-- A program cannot tell consoles that are alike. -/
theorem follows_alike : channel.Follows channel Alike fun _ _ _ _ => False where
  get := fun h => h.get _
  put := fun b h => h.put b _
  lasts := by
    intro d e w
    constructor <;> intros <;> trivial

end Console

theorem Session.settle_of_unlimited {c : Console} (h : c.Unlimited)
    (result : Except SessionError Unit) : settle result c = (result, c.settled) := by
  unfold settle
  rw [h.flush]
  cases result with
  | error e => rfl
  | ok _ => rfl

/-! ## One turn -/

namespace Machine

variable {σ : Type} {watcher : Session.Watcher σ} {code : Code} {m : Machine Console}
  {c : Console} {x : Instruction} {log log' : σ}

/-- A machine of a watched run, whose watcher is in the state `log`, and the same machine of the
plain run. -/
def Watched (log : σ) (m' : Machine (Console × σ)) (m : Machine Console) : Prop :=
  ∃ c, m.world.Alike c ∧ m' = (m.onto c).pair log

/-- How an observed run ends by a signal of its observer. -/
inductive EndsBy {ε : Type} : Signal ε → Ending ε → Prop where
  | halt : EndsBy .halt .halted
  | fail (cause : ε) : EndsBy (.fail cause) (.interrupted cause)

/-- The observer of a session delivers the output and asks the watcher. -/
theorem observer_of_unlimited (h : c.Unlimited) {seen : Snapshot} {signal : Signal SessionError}
    (hwatcher : watcher seen c.settled.sink log = (signal, log')) :
    Session.observer watcher seen (c, log) = (signal, c.settled, log') := by
  simp only [Session.observer, h.flush, hwatcher]

/-- A watched run that has left the code is at its end. -/
theorem turn_watched_of_none (hx : code[m.counter]? = none) :
    ((m.onto c).pair log).turn (Console.channel.beside σ) (Session.observer watcher) code =
      .error (.finished, (m.onto c).pair log) :=
  turn_of_none hx

/-- A turn of a watched run at which the watcher ends it. Nothing but the state of the watcher has
changed, and the output is delivered. -/
theorem turn_watched_of_end (hc : m.world.Alike c) (hx : code[m.counter]? = some x)
    {signal : Signal SessionError} {ending : Ending SessionError} (hends : EndsBy signal ending)
    (hwatcher : watcher (m.snapshot x) m.world.settled.sink log = (signal, log')) :
    ((m.onto c).pair log).turn (Console.channel.beside σ) (Session.observer watcher) code =
      .error (ending, (m.onto m.world.settled).pair log') := by
  have hcounter : code[((m.onto c).pair log).counter]? = some x := hx
  have hobserver : Session.observer watcher (((m.onto c).pair log).snapshot x)
      ((m.onto c).pair log).world = (signal, m.world.settled, log') := by
    rw [hc.settled_eq] at hwatcher ⊢
    exact observer_of_unlimited hc.unlimited' hwatcher
  unfold turn
  simp only [hcounter, hobserver]
  cases hends with
  | halt => rfl
  | fail cause => rfl

/-- A turn of a watched run at which the watcher lets it go on is a turn of the plain run. -/
theorem turn_watched_of_proceed (hc : m.world.Alike c) (hx : code[m.counter]? = some x)
    (hwatcher : watcher (m.snapshot x) m.world.settled.sink log = (.proceed, log')) :
    Lockstep (Watched log') (fun a b => a.1 = .ofResult b.1 ∧ Watched log' a.2 b.2)
      (((m.onto c).pair log).turn (Console.channel.beside σ) (Session.observer watcher) code)
      (m.next Console.channel code) := by
  have hcounter : code[((m.onto c).pair log).counter]? = some x := hx
  have hobserver : Session.observer watcher (((m.onto c).pair log).snapshot x)
      ((m.onto c).pair log).world = (.proceed, c.settled, log') := by
    rw [hc.settled_eq] at hwatcher
    exact observer_of_unlimited hc.unlimited' hwatcher
  have hstep : step (Console.channel.beside σ) x
      { (m.onto c).pair log with world := (c.settled, log') } =
        (((m.onto c.settled).step Console.channel x).1,
          ((m.onto c.settled).step Console.channel x).2.pair log') :=
    step_pair Console.channel x (m.onto c.settled) log'
  have hagree := step_agree Console.follows_alike hc.settled x
  unfold turn next
  simp only [hcounter, hobserver, hstep, hx]
  generalize m.step Console.channel x = a, (m.onto c.settled).step Console.channel x = b at hagree
  cases hagree with
  | @same r m₁ c₁ hc₁ =>
      rcases r with e | _
      · exact .error ⟨rfl, c₁, hc₁, rfl⟩
      · exact .ok ⟨c₁, hc₁, rfl⟩
  | excused _ hfalse _ => exact hfalse.elim

/-- A watched run goes on only where its watcher lets it and the plain run goes on. -/
theorem turn_watched_eq_ok (hc : m.world.Alike c) {m' : Machine (Console × σ)}
    (h : ((m.onto c).pair log).turn (Console.channel.beside σ) (Session.observer watcher) code =
      .ok m') :
    ∃ x log' m₁, code[m.counter]? = some x ∧
      watcher (m.snapshot x) m.world.settled.sink log = (.proceed, log') ∧
      m.next Console.channel code = .ok m₁ ∧ Watched log' m' m₁ := by
  cases hx : code[m.counter]? with
  | none =>
      rw [turn_watched_of_none hx] at h
      cases h
  | some x =>
      rcases hwatcher : watcher (m.snapshot x) m.world.settled.sink log with ⟨_ | _ | cause, log'⟩
      · have hlock := turn_watched_of_proceed hc hx hwatcher
        rw [h] at hlock
        generalize m.next Console.channel code = turn at hlock ⊢
        cases hlock with
        | ok hwatched => exact ⟨x, log', _, rfl, hwatcher, rfl, hwatched⟩
      · rw [turn_watched_of_end hc hx .halt hwatcher] at h
        cases h
      · rw [turn_watched_of_end hc hx (.fail cause) hwatcher] at h
        cases h

/-- How a turn of a watched run can be its last one. -/
theorem turn_watched_eq_error (hc : m.world.Alike c) {ending : Ending SessionError}
    {m' : Machine (Console × σ)}
    (h : ((m.onto c).pair log).turn (Console.channel.beside σ) (Session.observer watcher) code =
      .error (ending, m')) :
    (code[m.counter]? = none ∧ ending = .finished ∧ m' = (m.onto c).pair log) ∨
      ∃ x signal log', code[m.counter]? = some x ∧
        watcher (m.snapshot x) m.world.settled.sink log = (signal, log') ∧
        ((EndsBy signal ending ∧ m' = (m.onto m.world.settled).pair log') ∨
          ∃ e m₁, m.step Console.channel x = (.error e, m₁) ∧ ending = .failed e ∧
            Watched log' m' m₁) := by
  cases hx : code[m.counter]? with
  | none =>
      rw [turn_watched_of_none hx] at h
      cases h
      exact .inl ⟨rfl, rfl, rfl⟩
  | some x =>
      rcases hwatcher : watcher (m.snapshot x) m.world.settled.sink log with ⟨_ | _ | cause, log'⟩
      · refine .inr ⟨x, .proceed, log', rfl, hwatcher, .inr ?_⟩
        have hlock := turn_watched_of_proceed hc hx hwatcher
        rw [h] at hlock
        generalize hnext : m.next Console.channel code = turn at hlock
        cases hlock with
        | @error _ last hends =>
            obtain ⟨r, m₁⟩ := last
            obtain ⟨rfl, hwatched⟩ := hends
            obtain ⟨hnone, -, -⟩ | ⟨y, e, hy, hstep, rfl⟩ := next_eq_error hnext
            · cases hx.symm.trans hnone
            · cases hx.symm.trans hy
              exact ⟨e, m₁, hstep, rfl, hwatched⟩
      · rw [turn_watched_of_end hc hx .halt hwatcher] at h
        cases h
        exact .inr ⟨x, .halt, log', rfl, hwatcher, .inl ⟨.halt, rfl⟩⟩
      · rw [turn_watched_of_end hc hx (.fail cause) hwatcher] at h
        cases h
        exact .inr ⟨x, .fail cause, log', rfl, hwatcher, .inl ⟨.fail cause, rfl⟩⟩

end Machine

/-! ## Any number of turns -/

section Programs

variable {σ : Type} {watcher : Session.Watcher σ} {code : Code} {tape : Tape} {console : Console}
  {log log' : σ} {k : Nat} {m : Machine Console}

/-- What is shown of instruction number `k` of the plain run. -/
def snapshotAt {ω : Type} (channel : Channel ω) (code : Code) (tape : Tape) (world : ω) (k : Nat) :
    Option Snapshot :=
  (executedAt channel code tape world k).map fun (m, x) => m.snapshot x

/-- The state of a watcher before instruction number `k` of the plain run, if the watcher lets the
run come there. -/
def watcherAt (watcher : Session.Watcher σ) (code : Code) (tape : Tape) (console : Console)
    (log : σ) : Nat → Option σ
  | 0 => some log
  | k + 1 =>
    (watcherAt watcher code tape console log k).bind fun log =>
      (executedAt Console.channel code tape console k).bind fun (m, x) =>
        match watcher (m.snapshot x) m.world.settled.sink log with
        | (.proceed, log) => some log
        | _ => none

theorem watcherAt_succ_eq_some {log'' : σ} :
    watcherAt watcher code tape console log (k + 1) = some log'' ↔
      ∃ log' m x, watcherAt watcher code tape console log k = some log' ∧
        executedAt Console.channel code tape console k = some (m, x) ∧
        watcher (m.snapshot x) m.world.settled.sink log' = (.proceed, log'') := by
  simp only [watcherAt, Option.bind_eq_some_iff, Prod.exists]
  constructor
  · rintro ⟨log', hlog, m, x, hexec, hmatch⟩
    refine ⟨log', m, x, hlog, hexec, ?_⟩
    rcases hwatcher : watcher (m.snapshot x) m.world.settled.sink log' with ⟨_ | _ | _, log₁⟩
    · rw [hwatcher] at hmatch
      exact congrArg _ (Option.some.inj hmatch)
    · rw [hwatcher] at hmatch
      cases hmatch
    · rw [hwatcher] at hmatch
      cases hmatch
  · rintro ⟨log', m, x, hlog, hexec, hwatcher⟩
    exact ⟨log', hlog, m, x, hexec, by rw [hwatcher]⟩

/-- Before any of its calls a watched run has done what the plain run does up to there. -/
theorem exists_after_of_watched (hconsole : console.Unlimited)
    (hcells : lacksCells code tape = false) {m' : Machine (Console × σ)}
    (h : after (Machine.turn (Console.channel.beside σ) (Session.observer watcher) code)
      (.start tape (console, log)) k = some m') :
    ∃ m log', after (Machine.next Console.channel code) (.start tape console) k = some m ∧
      watcherAt watcher code tape console log k = some log' ∧ Machine.Watched log' m' m := by
  induction k generalizing m' with
  | zero =>
      cases h
      exact ⟨.start tape console, log, rfl, rfl, console, .refl hconsole, rfl⟩
  | succ k ih =>
      obtain ⟨m₁', hm₁', hturn⟩ := after_succ_eq_some.mp h
      obtain ⟨m₁, log₁, hafter, hlog, c, hc, rfl⟩ := ih hm₁'
      obtain ⟨x, log₂, m₂, hx, hwatcher, hnext, hwatched⟩ := Machine.turn_watched_eq_ok hc hturn
      have hexec : executedAt Console.channel code tape console k = some (m₁, x) :=
        instructionAt_eq_some.mpr ⟨hcells, hafter, hx⟩
      exact ⟨m₂, log₂, after_succ_eq_some.mpr ⟨m₁, hafter, hnext⟩,
        watcherAt_succ_eq_some.mpr ⟨log₁, m₁, x, hlog, hexec, hwatcher⟩, hwatched⟩

/-- A watched run comes to every instruction of the plain run to which its watcher lets it come. -/
theorem exists_watched_of_after (hconsole : console.Unlimited)
    (hafter : after (Machine.next Console.channel code) (.start tape console) k = some m)
    (hlog : watcherAt watcher code tape console log k = some log') :
    ∃ m', after (Machine.turn (Console.channel.beside σ) (Session.observer watcher) code)
      (.start tape (console, log)) k = some m' ∧ Machine.Watched log' m' m := by
  induction k generalizing m log' with
  | zero =>
      cases hafter
      cases hlog
      exact ⟨_, rfl, console, .refl hconsole, rfl⟩
  | succ k ih =>
      obtain ⟨m₁, hm₁, hnext⟩ := after_succ_eq_some.mp hafter
      obtain ⟨log₁, m₂, x, hlog₁, hexec, hwatcher⟩ := watcherAt_succ_eq_some.mp hlog
      obtain ⟨-, hm₂, hx⟩ := instructionAt_eq_some.mp hexec
      cases hm₁.symm.trans hm₂
      obtain ⟨_, hm₁', c, hc, rfl⟩ := ih hm₁ hlog₁
      have hlock := Machine.turn_watched_of_proceed hc hx hwatcher
      rw [hnext] at hlock
      generalize hturn : ((m₁.onto c).pair log₁).turn (Console.channel.beside σ)
        (Session.observer watcher) code = turn at hlock
      cases hlock with
      | ok hwatched => exact ⟨_, after_succ_eq_some.mpr ⟨_, hm₁', hturn⟩, hwatched⟩

/-- A run that comes to an instruction has come to all instructions before. -/
theorem exists_executedAt_of_le {ω : Type} {channel : Channel ω} {world : ω} {j : Nat}
    {call : Machine ω × Instruction} (h : executedAt channel code tape world k = some call)
    (hle : j ≤ k) : ∃ call', executedAt channel code tape world j = some call' := by
  obtain ⟨hcells, hafter, -⟩ := instructionAt_eq_some.mp h
  rcases Nat.eq_or_lt_of_le hle with rfl | hlt
  · exact ⟨call, h⟩
  · obtain ⟨m, hm⟩ := exists_after_of_le hafter (Nat.succ_le_of_lt hlt)
    obtain ⟨m₁, hm₁, hnext⟩ := after_succ_eq_some.mp hm
    obtain ⟨x, hx, -⟩ := Machine.next_eq_ok hnext
    exact ⟨(m₁, x), instructionAt_eq_some.mpr ⟨hcells, hm₁, hx⟩⟩

/-- A run that has left the code has no further instruction. -/
theorem executedAt_of_none {ω : Type} {channel : Channel ω} {world : ω} {m : Machine ω}
    (hafter : after (Machine.next channel code) (.start tape world) k = some m)
    (hx : code[m.counter]? = none) : executedAt channel code tape world k = none := by
  rw [executedAt, instructionAt, hafter, Option.bind_some, hx, Option.map_none, ite_self]

/-- After a turn with a result there is no instruction. -/
theorem executedAt_succ_of_error {ω : Type} {channel : Channel ω} {world : ω} {m : Machine ω}
    {r : Except RunError Unit × Machine ω}
    (hafter : after (Machine.next channel code) (.start tape world) k = some m)
    (hlast : m.next channel code = .error r) :
    executedAt channel code tape world (k + 1) = none := by
  cases hexec : executedAt channel code tape world (k + 1) with
  | none => rfl
  | some call =>
      obtain ⟨-, hafter', -⟩ := instructionAt_eq_some.mp hexec
      obtain ⟨m₁, hm₁, hnext⟩ := after_succ_eq_some.mp hafter'
      cases hafter.symm.trans hm₁
      cases hlast.symm.trans hnext

/-! ## Results -/

/-- The watcher lets the run go on at every instruction of the plain run. -/
def Quiet (watcher : Session.Watcher σ) (code : Code) (tape : Tape) (console : Console)
    (log : σ) : Prop :=
  ∀ k m x log', executedAt Console.channel code tape console k = some (m, x) →
    watcherAt watcher code tape console log k = some log' →
    (watcher (m.snapshot x) m.world.settled.sink log').1 = .proceed

/-- A watched run whose watcher lets it go on ends like the plain run, with the same bound. The
watcher is then in the state that it has after the last instruction. -/
theorem observe_watched_of_quiet (hconsole : console.Unlimited)
    (hquiet : Quiet watcher code tape console log) (fuel : Nat) :
    Option.Rel (fun a b => a.1 = .ofResult b.1 ∧ ∃ n log',
        executedAt Console.channel code tape console n = none ∧
        watcherAt watcher code tape console log n = some log' ∧ Machine.Watched log' a.2 b.2)
      (observe (Console.channel.beside σ) (Session.observer watcher) code fuel tape (console, log))
      (execute Console.channel code fuel tape console) := by
  unfold observe execute
  cases hcells : lacksCells code tape with
  | true =>
      refine .some ⟨rfl, 0, log, ?_, rfl, console, .refl hconsole, rfl⟩
      rw [executedAt, instructionAt, if_pos hcells]
  | false =>
      refine (Machine.drives_watch _ _ code).lockstep (Machine.drives_run Console.channel code)
        (R := fun a b => ∃ k log',
          after (Machine.next Console.channel code) (.start tape console) k = some b ∧
          watcherAt watcher code tape console log k = some log' ∧ Machine.Watched log' a b) ?_ ?_
        ⟨0, log, rfl, rfl, console, .refl hconsole, rfl⟩ fuel
      -- the relation keeps the number of the turn, by which the state of the watcher is known
      · rintro _ m ⟨k, log₁, hafter, hlog, c, hc, rfl⟩
        cases hx : code[m.counter]? with
        | none =>
            rw [Machine.turn_watched_of_none hx, Machine.next_of_none hx]
            exact .error ⟨rfl, k, log₁, executedAt_of_none hafter hx, hlog, c, hc, rfl⟩
        | some x =>
            have hexec : executedAt Console.channel code tape console k = some (m, x) :=
              instructionAt_eq_some.mpr ⟨hcells, hafter, hx⟩
            have hsignal := hquiet k m x log₁ hexec hlog
            rcases hwatcher : watcher (m.snapshot x) m.world.settled.sink log₁ with ⟨signal, log₂⟩
            rw [hwatcher] at hsignal
            cases hsignal
            have hnextLog : watcherAt watcher code tape console log (k + 1) = some log₂ :=
              watcherAt_succ_eq_some.mpr ⟨log₁, m, x, hlog, hexec, hwatcher⟩
            have hlock := Machine.turn_watched_of_proceed hc hx hwatcher
            generalize hnext : m.next Console.channel code = turn at hlock ⊢
            generalize ((m.onto c).pair log₁).turn (Console.channel.beside σ)
              (Session.observer watcher) code = turn' at hlock ⊢
            cases hlock with
            | ok hwatched =>
                exact .ok ⟨k + 1, log₂, after_succ_eq_some.mpr ⟨m, hafter, hnext⟩, hnextLog,
                  hwatched⟩
            | error hends =>
                exact .error ⟨hends.1, k + 1, log₂, executedAt_succ_of_error hafter hnext,
                  hnextLog, hends.2⟩
      -- with no turn left both runs still see that they have left the code
      · rintro _ m ⟨k, log₁, hafter, hlog, c, hc, rfl⟩
        cases hx : code[m.counter]? with
        | none =>
            have hend : code[((m.onto c).pair log₁).counter]? = none := hx
            rw [Machine.watch_of_none hend, Machine.run_of_none hx]
            exact .some ⟨rfl, k, log₁, executedAt_of_none hafter hx, hlog, c, hc, rfl⟩
        | some x =>
            have hshown : code[((m.onto c).pair log₁).counter]? = some x := hx
            rw [Machine.watch_zero hshown, Machine.run_zero hx]
            exact .none

end Programs

namespace Session

variable {σ : Type} {watcher : Watcher σ} {code : Code} {s : Session} {log : σ}

theorem watch_eq (s : Session) (fuel : Nat) (code : Code) (watcher : Watcher σ) (log : σ) :
    s.watch fuel code watcher log =
      (observe (Console.channel.beside σ) (observer watcher) code fuel s.tape
        (s.console, log)).map fun (ending, m) =>
          ((settle (resultOf ending) m.world.1).1,
            { s with tape := m.tape, console := (settle (resultOf ending) m.world.1).2 },
            m.world.2) := by
  obtain ⟨settings, tape, console, store, host⟩ := s
  unfold watch
  dsimp only
  cases observe (Console.channel.beside σ) (observer watcher) code fuel tape (console, log) with
  | none => rfl
  | some result => rfl

/-- A watcher that lets the run go on sees all of it and leaves no mark on the session. -/
theorem watch_of_quiet (hsink : s.console.Unlimited)
    (hquiet : Quiet watcher code s.tape s.console log) (fuel : Nat) :
    (s.watch fuel code watcher log = none ↔ s.execute fuel code = none) ∧
      ∀ result s', s.execute fuel code = some (result, s') →
        ∃ n log', executedAt Console.channel code s.tape s.console n = none ∧
          watcherAt watcher code s.tape s.console log n = some log' ∧
          s.watch fuel code watcher log = some (result, s', log') := by
  have hrel := observe_watched_of_quiet hsink hquiet fuel
  rw [watch_eq, execute_eq]
  generalize observe (Console.channel.beside σ) (observer watcher) code fuel s.tape
    (s.console, log) = a, Brainfuck.execute Console.channel code fuel s.tape s.console = b at hrel
  cases hrel with
  | none =>
      refine ⟨iff_of_true rfl rfl, fun result s' hexecute => ?_⟩
      cases hexecute
  | @some a b hends =>
      obtain ⟨ending, _⟩ := a
      obtain ⟨r, m⟩ := b
      obtain ⟨rfl, n, log', hend, hlog, c, hc, rfl⟩ := hends
      have hresult : resultOf (.ofResult r) = r.mapError .run := by
        cases r with
        | error e => rfl
        | ok _ => rfl
      have hsettle : settle (resultOf (.ofResult r)) c = settle (r.mapError .run) m.world := by
        rw [hresult, settle_of_unlimited hc.unlimited, settle_of_unlimited hc.unlimited',
          hc.settled_eq]
      refine ⟨iff_of_false (Option.some_ne_none _) (Option.some_ne_none _), ?_⟩
      intro result s' hexecute
      refine ⟨n, log', hend, hlog, ?_⟩
      obtain ⟨rfl, rfl⟩ := Prod.mk.inj (Option.some.inj hexecute)
      rw [← hsettle]
      rfl

/-- A watcher that halts the run at an instruction leaves the session as the plain run has it there,
with all output delivered. -/
theorem watch_of_halt (hsink : s.console.Unlimited) {k : Nat} {m : Machine Console}
    {x : Instruction} {log' log'' : σ}
    (hexec : executedAt Console.channel code s.tape s.console k = some (m, x))
    (hlog : watcherAt watcher code s.tape s.console log k = some log')
    (hwatcher : watcher (m.snapshot x) m.world.settled.sink log' = (.halt, log'')) {fuel : Nat}
    (hfuel : k < fuel) :
    s.watch fuel code watcher log =
      some (.ok (), { s with tape := m.tape, console := m.world.settled }, log'') := by
  obtain ⟨hcells, hafter, hx⟩ := instructionAt_eq_some.mp hexec
  obtain ⟨_, hafter', c, hc, rfl⟩ := exists_watched_of_after hsink hafter hlog
  have hlast := Machine.turn_watched_of_end hc hx .halt hwatcher
  have hobserve : observe (Console.channel.beside σ) (observer watcher) code fuel s.tape
      (s.console, log) = some (.halted, (m.onto m.world.settled).pair log'') := by
    rw [observe, hcells, if_neg Bool.false_ne_true]
    exact (Machine.drives_watch _ _ code).eq_some_of_after hafter' hlast hfuel
  have hsettle : settle (resultOf .halted) m.world.settled = (.ok (), m.world.settled) := by
    rw [settle_of_unlimited hc.unlimited.settled, Console.settled_settled]
    rfl
  rw [watch_eq, hobserve, Option.map_some]
  show some ((settle (resultOf .halted) m.world.settled).1,
    { s with tape := m.tape, console := (settle (resultOf .halted) m.world.settled).2 }, log'') = _
  rw [hsettle]

end Session

end Brainfuck
