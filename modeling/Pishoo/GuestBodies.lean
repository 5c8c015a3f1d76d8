import Pishoo.Machine

namespace Pishoo.GuestBodies

open Machine

inductive Frame
  | data (bytes : List UInt8)
  | trailers (fields : List (String × String))

def Frame.bytes : Frame → List UInt8
  | .data bytes => bytes
  | .trailers _ => []

def Frame.isData : Frame → Bool
  | .data _ => true
  | .trailers _ => false

inductive Trouble
  | connectionTimeout
  | responseTimeout
  | protocolError
  | requestBodySize
  | responseBodySize
  | internalError
  deriving DecidableEq

/-- What the wait for the next frame of a body ends with. -/
inductive Poll
  | frame (f : Frame)
  | failed (e : Trouble)
  | ended
  | late

inductive Item
  | frame (f : Frame)
  | failed (e : Trouble)
  | ended

/-- A stream that the frames of a body pass through. -/
structure Meter where
  late : Trouble
  tooLarge : Trouble
  dataOnly : Bool

def limit : Nat := 1024 * 1024

def usizeMax : Nat := 18446744073709551615

def Meter.next (m : Meter) (counted : Nat) : Poll → Item × Nat
  | .late => (.failed m.late, counted)
  | .failed e => (.failed e, counted)
  | .ended => (.ended, counted)
  | .frame (.trailers fields) =>
      (if m.dataOnly = true then .failed .protocolError else .frame (.trailers fields), counted)
  | .frame (.data bytes) =>
      let total := min (counted + bytes.length) usizeMax
      (if limit < total then .failed m.tooLarge else .frame (.data bytes), total)

/-- What is passed on until the stream is over. -/
def Meter.items (m : Meter) : Nat → List Poll → List Item
  | _, [] => []
  | counted, poll :: polls => match m.next counted poll with
      | (.frame f, total) => .frame f :: m.items total polls
      | (item, _) => [item]

def requestMeter : Meter := ⟨.connectionTimeout, .requestBodySize, true⟩

def responseMeter : Meter := ⟨.responseTimeout, .responseBodySize, false⟩

/-- The task that writes a request to another identity. -/
inductive Worker
  | reading
  | writing (rest : List UInt8)
  | closing
  | finished
  | stopped

def Worker.rest : Worker → List UInt8
  | .writing rest => rest
  | _ => []

/-- A task that is dropped is aborted. -/
def Worker.abort : Worker → Worker
  | .finished => .finished
  | _ => .stopped

structure Upload where
  counted : Nat
  worker : Worker
  written : List UInt8

def Upload.abort (u : Upload) : Upload := { u with worker := u.worker.abort }

structure Download where
  answered : Bool
  counted : Nat
  given : List Frame
  outcome : Option (Except Trouble Unit)

inductive Completion
  | pending
  | done
  | dropped
  deriving DecidableEq

/-- A call of a guest to another identity. -/
structure Exchange where
  up : Upload
  down : Download
  completion : Completion

inductive Event
  | body (poll : Poll)
  | wrote (result : Except Unit Nat)
  | shutdown (ok : Bool)
  | head (result : Except Trouble Unit)
  | response (poll : Poll)
  | completed
  | dropped

/-- `write_all` with what is left of a frame. -/
def writeAll (rest : List UInt8) : Worker := if rest = [] then .reading else .writing rest

def read (u : Upload) (poll : Poll) : Upload :=
  match requestMeter.next u.counted poll with
  | (.frame (.data bytes), total) => { u with counted := total, worker := writeAll bytes }
  | (.ended, total) => { u with counted := total, worker := .closing }
  | (_, total) => { u with counted := total, worker := .stopped }

def wrote (u : Upload) (rest : List UInt8) : Except Unit Nat → Option Upload
  | .error _ => some { u with worker := .stopped }
  | .ok 0 => some { u with worker := .stopped }
  | .ok n => if n ≤ rest.length then some { u with
      written := u.written ++ rest.take n
      worker := writeAll (rest.drop n) } else none

def receive (d : Download) (poll : Poll) : Download :=
  match responseMeter.next d.counted poll with
  | (.frame f, total) => { d with counted := total, given := d.given ++ [f] }
  | (.ended, total) => { d with counted := total, outcome := some (.ok ()) }
  | (.failed e, total) => { d with counted := total, outcome := some (.error e) }

def answer (x : Exchange) : Except Trouble Unit → Exchange
  | .ok () => { x with down := { x.down with answered := true } }
  | .error e => { x with up := x.up.abort, down := { x.down with outcome := some (.error e) } }

def step (x : Exchange) : Event → Option Exchange
  | .body poll => match x.up.worker with
      | .reading => some { x with up := read x.up poll }
      | _ => none
  | .wrote result => match x.up.worker with
      | .writing rest => (wrote x.up rest result).map fun up => { x with up }
      | _ => none
  | .shutdown ok => match x.up.worker with
      | .closing => some { x with
          up := { x.up with worker := if ok = true then .finished else .stopped } }
      | _ => none
  | .head result =>
      if x.down.answered = false ∧ x.down.outcome.isNone = true ∧ x.completion = .pending then
        some (answer x result) else none
  | .response poll =>
      if x.down.answered = true ∧ x.down.outcome.isNone = true then
        some { x with down := receive x.down poll } else none
  | .completed => match x.down.answered, x.completion, x.up.worker with
      | true, .pending, .finished => some { x with completion := .done }
      | true, .pending, .stopped => some { x with completion := .done }
      | _, _, _ => none
  | .dropped =>
      if x.completion = .pending then some { x with up := x.up.abort, completion := .dropped }
      else none

def start : Exchange := ⟨⟨0, .reading, []⟩, ⟨false, 0, [], none⟩, .pending⟩

def Event.up : Event → List UInt8
  | .body (.frame f) => f.bytes
  | _ => []

def Event.down : Event → List Frame
  | .response (.frame f) => [f]
  | _ => []

structure Sent (events : List Event) (u : Upload) : Prop where
  kept : u.written ++ u.worker.rest <+: events.flatMap Event.up
  whole : u.worker ≠ .stopped → u.written ++ u.worker.rest = events.flatMap Event.up ∧
    u.counted = (u.written ++ u.worker.rest).length
  small : (u.written ++ u.worker.rest).length ≤ limit
  ended : u.worker = .closing ∨ u.worker = .finished → .body .ended ∈ events

structure Given (events : List Event) (d : Download) : Prop where
  kept : d.given <+: events.flatMap Event.down
  whole : (∀ e, d.outcome ≠ some (.error e)) → d.given = events.flatMap Event.down ∧
    d.counted = (d.given.flatMap Frame.bytes).length
  small : (d.given.flatMap Frame.bytes).length ≤ limit
  ended : d.outcome = some (.ok ()) → .response .ended ∈ events

structure Keeps (events : List Event) (x : Exchange) : Prop where
  up : Sent events x.up
  down : Given events x.down
  completed : x.completion = .done → x.up.worker = .finished ∨ x.up.worker = .stopped

section

variable {m : Meter} {counted total : Nat} {poll : Poll} {f : Frame} {frames : List Frame}

theorem limit_lt_min {n : Nat} : limit < min n usizeMax ↔ limit < n := by
  have hmax : limit < usizeMax := by decide
  rw [Nat.lt_min, and_iff_left hmax]

theorem next_data (bytes : List UInt8) : m.next counted (.frame (.data bytes)) =
    if limit < counted + bytes.length then
      (.failed m.tooLarge, min (counted + bytes.length) usizeMax)
    else (.frame (.data bytes), counted + bytes.length) := by
  simp only [Meter.next, limit_lt_min]
  split
  · rfl
  · rename_i hlimit
    have hmax : limit ≤ usizeMax := by decide
    rw [Nat.min_eq_left (Nat.le_trans (Nat.le_of_not_lt hlimit) hmax)]

theorem next_eq_frame : m.next counted poll = (.frame f, total) ↔ poll = .frame f ∧
    total = counted + f.bytes.length ∧ (f.isData = true → total ≤ limit) ∧
      (m.dataOnly = true → f.isData = true) := by
  cases poll with
  | late => exact ⟨by rintro ⟨⟩, by rintro ⟨⟨⟩, -⟩⟩
  | failed e => exact ⟨by rintro ⟨⟩, by rintro ⟨⟨⟩, -⟩⟩
  | ended => exact ⟨by rintro ⟨⟩, by rintro ⟨⟨⟩, -⟩⟩
  | frame g =>
      cases g with
      | data bytes =>
          rw [next_data]
          by_cases hlimit : limit < counted + bytes.length
          · rw [if_pos hlimit]
            constructor
            · rintro ⟨⟩
            · rintro ⟨⟨⟩, rfl, hle, -⟩
              exact absurd hlimit (Nat.not_lt.mpr (hle rfl))
          · rw [if_neg hlimit]
            constructor
            · rintro ⟨⟩
              exact ⟨rfl, rfl, fun _ => Nat.le_of_not_lt hlimit, fun _ => rfl⟩
            · rintro ⟨⟨⟩, rfl, -, -⟩
              rfl
      | trailers fields =>
          rw [Meter.next]
          by_cases honly : m.dataOnly = true
          · rw [if_pos honly]
            constructor
            · rintro ⟨⟩
            · rintro ⟨⟨⟩, -, -, hdata⟩
              cases hdata honly
          · rw [if_neg honly]
            constructor
            · rintro ⟨⟩
              exact ⟨rfl, rfl, by rintro ⟨⟩, fun honly' => absurd honly' honly⟩
            · rintro ⟨⟨⟩, rfl, -, -⟩
              rfl

theorem next_eq_ended : m.next counted poll = (.ended, total) ↔ poll = .ended ∧ total = counted := by
  cases poll with
  | late => exact ⟨by rintro ⟨⟩, by rintro ⟨⟨⟩, -⟩⟩
  | failed e => exact ⟨by rintro ⟨⟩, by rintro ⟨⟨⟩, -⟩⟩
  | ended => exact ⟨by rintro ⟨⟩; exact ⟨rfl, rfl⟩, by rintro ⟨-, rfl⟩; rfl⟩
  | frame g =>
      refine ⟨fun hnext => ?_, by rintro ⟨⟨⟩, -⟩⟩
      cases g with
      | data bytes =>
          rw [next_data] at hnext
          split at hnext
          · cases hnext
          · cases hnext
      | trailers fields =>
          rw [Meter.next] at hnext
          split at hnext
          · cases hnext
          · cases hnext

theorem admitted_le (hcounted : counted ≤ limit) (hdata : f.isData = true → total ≤ limit)
    (htotal : total = counted + f.bytes.length) : total ≤ limit := by
  cases f with
  | data bytes => exact hdata rfl
  | trailers fields => rwa [htotal, Frame.bytes, List.length_nil, Nat.add_zero]

/-- A body passes whole exactly when it is small enough and has frames that may pass. -/
theorem items_whole (hcounted : counted ≤ limit) :
    m.items counted (frames.map .frame ++ [.ended]) = frames.map .frame ++ [.ended] ↔
      counted + (frames.flatMap Frame.bytes).length ≤ limit ∧
        ∀ f ∈ frames, m.dataOnly = true → f.isData = true := by
  induction frames generalizing counted with
  | nil => exact iff_of_true rfl ⟨hcounted, by rintro f ⟨⟩⟩
  | cons f frames ih =>
      rw [List.map_cons, List.cons_append, Meter.items, List.map_cons, List.cons_append,
        List.flatMap_cons, List.length_append, List.forall_mem_cons, ← Nat.add_assoc]
      have hpasses (hsmall : counted + f.bytes.length + (frames.flatMap Frame.bytes).length ≤ limit)
          (hdata : m.dataOnly = true → f.isData = true) :
          m.next counted (.frame f) = (.frame f, counted + f.bytes.length) :=
        next_eq_frame.mpr ⟨rfl, rfl, fun _ => Nat.le_trans (Nat.le_add_right _ _) hsmall, hdata⟩
      rcases hnext : m.next counted (.frame f) with ⟨g | e | _, total⟩
      · obtain ⟨hsame, htotal, hle, hdata⟩ := next_eq_frame.mp hnext
        cases hsame
        rw [List.cons.injEq, and_iff_right rfl, ih (admitted_le hcounted hle htotal), htotal,
          and_iff_right hdata]
      · refine ⟨by rintro ⟨⟩, fun ⟨hsmall, hdata, _⟩ => ?_⟩
        rw [hpasses hsmall hdata] at hnext
        cases hnext
      · cases (next_eq_ended.mp hnext).1

end

section

variable {events : List Event} {e : Event} {u u' : Upload} {d : Download} {x y : Exchange}

theorem flatMap_snoc {α : Type} (g : Event → List α) :
    (events ++ [e]).flatMap g = events.flatMap g ++ g e := by
  rw [List.flatMap_append, List.flatMap_singleton]

theorem prefix_of_eq {α : Type} {l l' : List α} (h : l = l') : l <+: l' := by
  subst h
  exact List.prefix_rfl

theorem writeAll_rest (rest : List UInt8) : (writeAll rest).rest = rest := by
  rw [writeAll]
  split
  · rename_i hrest
    rw [hrest]
    rfl
  · rfl

theorem writeAll_open (rest : List UInt8) :
    ¬(writeAll rest = .closing ∨ writeAll rest = .finished) := by
  rw [writeAll]
  split
  · rintro (⟨⟨⟩⟩ | ⟨⟨⟩⟩)
  · rintro (⟨⟨⟩⟩ | ⟨⟨⟩⟩)

theorem Sent.counted_le (h : Sent events u) (hgoing : u.worker ≠ .stopped) : u.counted ≤ limit := by
  rw [(h.whole hgoing).2]
  exact h.small

/-- The worker goes on with what it has been given. -/
theorem Sent.advance (h : Sent events u) (hgoing : u.worker ≠ .stopped)
    (hsame : u'.written ++ u'.worker.rest = u.written ++ u.worker.rest ++ e.up)
    (hcounted : u'.counted = u.counted + e.up.length) (hsmall : u'.counted ≤ limit)
    (hended : u'.worker = .closing ∨ u'.worker = .finished → .body .ended ∈ events ++ [e]) :
    Sent (events ++ [e]) u' := by
  obtain ⟨hwhole, hlength⟩ := h.whole hgoing
  have hwhole' : u'.written ++ u'.worker.rest = (events ++ [e]).flatMap Event.up := by
    rw [hsame, hwhole, flatMap_snoc]
  have hlength' : u'.counted = (u'.written ++ u'.worker.rest).length := by
    rw [hcounted, hlength, hsame]
    exact List.length_append.symm
  refine ⟨?_, fun _ => ⟨hwhole', hlength'⟩, ?_, hended⟩
  · exact prefix_of_eq hwhole'
  · rw [← hlength']
    exact hsmall

theorem Sent.stop (h : Sent events u) (e : Event) (n : Nat) :
    Sent (events ++ [e]) { u with counted := n, worker := .stopped } where
  kept := by
    rw [flatMap_snoc]
    apply List.IsPrefix.trans _ (h.kept.trans (List.prefix_append _ _))
    apply (List.prefix_append_right_inj _).mpr
    exact List.nil_prefix
  whole hgoing := absurd rfl hgoing
  small := by
    have hsmall := h.small
    rw [List.length_append] at hsmall
    change (u.written ++ []).length ≤ limit
    rw [List.append_nil]
    exact Nat.le_trans (Nat.le_add_right _ _) hsmall
  ended := by rintro (⟨⟨⟩⟩ | ⟨⟨⟩⟩)

theorem Sent.other (h : Sent events u) (hup : e.up = []) : Sent (events ++ [e]) u where
  kept := by
    rw [flatMap_snoc, hup, List.append_nil]
    exact h.kept
  whole hgoing := by
    rw [flatMap_snoc, hup, List.append_nil]
    exact h.whole hgoing
  small := h.small
  ended hover := List.mem_append_left _ (h.ended hover)

theorem Sent.abort (h : Sent events u) (hup : e.up = []) : Sent (events ++ [e]) u.abort := by
  unfold Upload.abort
  cases hworker : u.worker with
  | finished =>
      rw [Worker.abort, ← hworker]
      exact h.other hup
  | reading => exact h.stop e u.counted
  | writing rest => exact h.stop e u.counted
  | closing => exact h.stop e u.counted
  | stopped => exact h.stop e u.counted

theorem read_sent (h : Sent events u) (hreading : u.worker = .reading) (poll : Poll) :
    Sent (events ++ [.body poll]) (read u poll) := by
  have hgoing : u.worker ≠ .stopped := by
    rw [hreading]
    rintro ⟨⟩
  have hrest : u.worker.rest = [] := by
    rw [hreading]
    rfl
  unfold read
  split
  · rename_i bytes total hnext
    obtain ⟨rfl, htotal, hle, -⟩ := next_eq_frame.mp hnext
    apply h.advance hgoing
    · rw [writeAll_rest, hrest, List.append_nil]
      rfl
    · exact htotal
    · exact hle rfl
    · exact fun hover => absurd hover (writeAll_open bytes)
  · rename_i total hnext
    obtain ⟨rfl, rfl⟩ := next_eq_ended.mp hnext
    apply h.advance hgoing
    · rw [hrest, List.append_nil]
      rfl
    · rfl
    · exact h.counted_le hgoing
    · exact fun _ => List.mem_append_right _ (List.mem_singleton.mpr rfl)
  · exact h.stop _ _

theorem wrote_sent (h : Sent events u) {rest : List UInt8} (hwriting : u.worker = .writing rest)
    {result : Except Unit Nat} (hstep : wrote u rest result = some u') :
    Sent (events ++ [.wrote result]) u' := by
  have hgoing : u.worker ≠ .stopped := by
    rw [hwriting]
    rintro ⟨⟩
  cases result with
  | error _ =>
      cases hstep
      exact h.stop _ _
  | ok n =>
      cases n with
      | zero =>
          cases hstep
          exact h.stop _ _
      | succ n =>
          simp only [wrote, Option.ite_none_right_eq_some] at hstep
          obtain ⟨-, hstep⟩ := hstep
          cases hstep
          apply h.advance hgoing
          · rw [writeAll_rest, List.append_assoc, List.take_append_drop, hwriting]
            exact (List.append_nil _).symm
          · rfl
          · exact h.counted_le hgoing
          · exact fun hover => absurd hover (writeAll_open _)

theorem shutdown_sent (h : Sent events u) (hclosing : u.worker = .closing) (ok : Bool) :
    Sent (events ++ [.shutdown ok])
      { u with worker := if ok = true then .finished else .stopped } := by
  have hgoing : u.worker ≠ .stopped := by
    rw [hclosing]
    rintro ⟨⟩
  cases ok with
  | false => exact h.stop _ _
  | true =>
      apply h.advance hgoing
      · rw [hclosing]
        exact (List.append_nil _).symm
      · rfl
      · exact h.counted_le hgoing
      · exact fun _ => List.mem_append_left _ (h.ended (.inl hclosing))

theorem Given.other (h : Given events d) (hdown : e.down = []) : Given (events ++ [e]) d where
  kept := by
    rw [flatMap_snoc, hdown, List.append_nil]
    exact h.kept
  whole hfine := by
    rw [flatMap_snoc, hdown, List.append_nil]
    exact h.whole hfine
  small := h.small
  ended hended := List.mem_append_left _ (h.ended hended)

theorem Given.fail (h : Given events d) (e : Event) (n : Nat) (trouble : Trouble) :
    Given (events ++ [e]) { d with counted := n, outcome := some (.error trouble) } where
  kept := by
    rw [flatMap_snoc]
    exact h.kept.trans (List.prefix_append _ _)
  whole hfine := absurd rfl (hfine trouble)
  small := h.small
  ended := by rintro ⟨⟩

theorem receive_given (h : Given events d) (hgoing : d.outcome = none) (poll : Poll) :
    Given (events ++ [.response poll]) (receive d poll) := by
  obtain ⟨hwhole, hlength⟩ := h.whole (by rw [hgoing]; rintro e ⟨⟩)
  unfold receive
  split
  · rename_i f total hnext
    obtain ⟨rfl, htotal, hle, -⟩ := next_eq_frame.mp hnext
    have hgiven : d.given ++ [f] = (events ++ [Event.response (.frame f)]).flatMap Event.down := by
      rw [flatMap_snoc, ← hwhole]
      rfl
    have hcounted : total = ((d.given ++ [f]).flatMap Frame.bytes).length := by
      rw [htotal, hlength, List.flatMap_append, List.flatMap_singleton, List.length_append]
    refine ⟨?_, fun _ => ⟨hgiven, hcounted⟩, ?_, ?_⟩
    · exact prefix_of_eq hgiven
    · rw [← hcounted]
      apply admitted_le _ hle htotal
      rw [hlength]
      exact h.small
    · rw [hgoing]
      rintro ⟨⟩
  · rename_i total hnext
    obtain ⟨rfl, rfl⟩ := next_eq_ended.mp hnext
    have hsame : (events ++ [Event.response .ended]).flatMap Event.down =
        events.flatMap Event.down := by
      rw [flatMap_snoc]
      exact List.append_nil _
    refine ⟨?_, fun _ => ⟨hsame ▸ hwhole, hlength⟩, h.small, fun _ => ?_⟩
    · rw [hsame]
      exact h.kept
    · exact List.mem_append_right _ (List.mem_singleton.mpr rfl)
  · exact h.fail _ _ _

theorem start_keeps : Keeps [] start where
  up := ⟨List.prefix_rfl, fun _ => ⟨rfl, rfl⟩, Nat.zero_le _, by rintro (⟨⟨⟩⟩ | ⟨⟨⟩⟩)⟩
  down := ⟨List.prefix_rfl, fun _ => ⟨rfl, rfl⟩, Nat.zero_le _, by rintro ⟨⟩⟩
  completed := by rintro ⟨⟩

/-- The worker has gone on, and the call is not completed. -/
theorem Keeps.work (h : Keeps events x) {up : Upload} (hfinished : x.up.worker ≠ .finished)
    (hstopped : x.up.worker ≠ .stopped) (hdown : e.down = []) (hup : Sent (events ++ [e]) up) :
    Keeps (events ++ [e]) { x with up } := by
  refine ⟨hup, h.down.other hdown, fun hdone => ?_⟩
  rcases h.completed hdone with hworker | hworker
  · exact absurd hworker hfinished
  · exact absurd hworker hstopped

theorem step_keeps (h : Keeps events x) (hstep : step x e = some y) : Keeps (events ++ [e]) y := by
  cases e with
  | body poll =>
      rw [step] at hstep
      split at hstep
      · rename_i hreading
        cases hstep
        apply h.work _ _ rfl (read_sent h.up hreading poll)
        · rw [hreading]
          rintro ⟨⟩
        · rw [hreading]
          rintro ⟨⟩
      · cases hstep
  | wrote result =>
      rw [step] at hstep
      split at hstep
      · rename_i rest hwriting
        obtain ⟨up, hup, rfl⟩ := Option.map_eq_some_iff.mp hstep
        apply h.work _ _ rfl (wrote_sent h.up hwriting hup)
        · rw [hwriting]
          rintro ⟨⟩
        · rw [hwriting]
          rintro ⟨⟩
      · cases hstep
  | shutdown ok =>
      rw [step] at hstep
      split at hstep
      · rename_i hclosing
        cases hstep
        apply h.work _ _ rfl (shutdown_sent h.up hclosing ok)
        · rw [hclosing]
          rintro ⟨⟩
        · rw [hclosing]
          rintro ⟨⟩
      · cases hstep
  | head result =>
      rw [step, Option.ite_none_right_eq_some] at hstep
      obtain ⟨⟨-, -, hpending⟩, hstep⟩ := hstep
      cases hstep
      cases result with
      | ok _ =>
          have hdown : Given (events ++ [.head (.ok ())]) x.down := h.down.other rfl
          exact ⟨h.up.other rfl, ⟨hdown.kept, hdown.whole, hdown.small, hdown.ended⟩, h.completed⟩
      | error trouble =>
          refine ⟨h.up.abort rfl, h.down.fail _ _ trouble, fun hdone => ?_⟩
          rw [answer, hpending] at hdone
          cases hdone
  | response poll =>
      rw [step, Option.ite_none_right_eq_some, Option.isNone_iff_eq_none] at hstep
      obtain ⟨⟨-, hgoing⟩, hstep⟩ := hstep
      cases hstep
      exact ⟨h.up.other rfl, receive_given h.down hgoing poll, h.completed⟩
  | completed =>
      rw [step] at hstep
      split at hstep
      · rename_i hworker
        cases hstep
        exact ⟨h.up.other rfl, h.down.other rfl, fun _ => .inl hworker⟩
      · rename_i hworker
        cases hstep
        exact ⟨h.up.other rfl, h.down.other rfl, fun _ => .inr hworker⟩
      · cases hstep
  | dropped =>
      rw [step, Option.ite_none_right_eq_some] at hstep
      obtain ⟨-, hstep⟩ := hstep
      cases hstep
      exact ⟨h.up.abort rfl, h.down.other rfl, by rintro ⟨⟩⟩

/-- What has been stopped stays stopped. -/
theorem step_stopped (hstopped : x.up.worker = .stopped) (hstep : step x e = some y) :
    y.up = x.up := by
  have habort : x.up.abort = x.up := by
    rw [Upload.abort, hstopped]
    change { x.up with worker := .stopped } = x.up
    rw [← hstopped]
  cases e with
  | body poll =>
      rw [step, hstopped] at hstep
      cases hstep
  | wrote result =>
      rw [step, hstopped] at hstep
      cases hstep
  | shutdown ok =>
      rw [step, hstopped] at hstep
      cases hstep
  | head result =>
      rw [step, Option.ite_none_right_eq_some] at hstep
      obtain ⟨-, hstep⟩ := hstep
      cases hstep
      cases result with
      | ok _ => rfl
      | error trouble => exact habort
  | response poll =>
      rw [step, Option.ite_none_right_eq_some] at hstep
      obtain ⟨-, hstep⟩ := hstep
      cases hstep
      rfl
  | completed =>
      rw [step] at hstep
      split at hstep
      · cases hstep
        rfl
      · cases hstep
        rfl
      · cases hstep
  | dropped =>
      rw [step, Option.ite_none_right_eq_some] at hstep
      obtain ⟨-, hstep⟩ := hstep
      cases hstep
      exact habort

theorem stopped_stays {more : List Event} (hstopped : x.up.worker = .stopped)
    (h : Trace step Free x more y) : y.up = x.up := by
  apply h.invariant (I := fun y => y.up = x.up) rfl
  intro t e u ht _ hstep
  rw [step_stopped (ht ▸ hstopped) hstep, ht]

end

/-- The answer comes before the request has been written, and the completion after it. -/
def sampleEvents : List Event :=
  [.body (.frame (.data [1, 2, 3])), .wrote (.ok 2), .head (.ok ()),
    .response (.frame (.data [7])), .wrote (.ok 1), .body .ended, .response .ended,
    .shutdown true, .completed]

end Pishoo.GuestBodies
