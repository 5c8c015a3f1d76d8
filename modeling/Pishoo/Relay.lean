import Pishoo.Forwarding
import Pishoo.Machine

namespace Pishoo.Relay

open Machine Forwarding

/-- Where the sending of a request to an upgraded connection stands. -/
inductive Sending
  | waiting
  | writing (rest : List UInt8)
  | flushing
  | closing
  | finished

def Sending.rest : Sending → List UInt8
  | .writing rest => rest
  | _ => []

/-- Both directions of a WebSocket, which the body of the response owns. -/
structure Relay where
  sending : Sending
  written : List UInt8
  closed : Bool
  yielded : List (List UInt8)
  outcome : Option (Except String Unit)

/-- What the request and the connection do next. Whichever is ready may come first. -/
inductive Event
  | frame (next : Option Frame)
  | wrote (result : Except String Nat)
  | flushed (result : Except String Unit)
  | shutdown (result : Except String Unit)
  | read (result : Except String (List UInt8))

def capacity : Nat := 16 * 1024

def Relay.fail (r : Relay) (e : String) : Relay := { r with outcome := some (.error e) }

def Relay.settle (r next : Relay) : Except String Unit → Relay
  | .ok () => next
  | .error e => r.fail e

/-- `write_all` with what is left of a frame. -/
def writeAll (rest : List UInt8) : Sending := if rest = [] then .flushing else .writing rest

def accept (r : Relay) : Option Frame → Relay
  | none => { r with sending := .closing }
  | some (.data bytes) => { r with sending := writeAll bytes }
  | some .trailers => r.fail "WebSocket DATA cannot contain trailers"
  | some .failed => r.fail "body error"

def wrote (r : Relay) (rest : List UInt8) : Except String Nat → Option Relay
  | .error e => some (r.fail e)
  | .ok 0 => some (r.fail "failed to write whole buffer")
  | .ok n => if n ≤ rest.length then some { r with
      written := r.written ++ rest.take n
      sending := writeAll (rest.drop n) } else none

def received (r : Relay) : Except String (List UInt8) → Option Relay
  | .error e => some (r.fail e)
  | .ok bytes => if capacity < bytes.length then none
      else if bytes = [] then some { r with outcome := some (.ok ()) }
      else some { r with yielded := r.yielded ++ [bytes] }

/-- The sending is only polled until it has ended, and the reading always. -/
def select (r : Relay) : Event → Option Relay
  | .read result => received r result
  | .frame next => match r.sending with
      | .waiting => some (accept r next)
      | _ => none
  | .wrote result => match r.sending with
      | .writing rest => wrote r rest result
      | _ => none
  | .flushed result => match r.sending with
      | .flushing => some (r.settle { r with sending := .waiting } result)
      | _ => none
  | .shutdown result => match r.sending with
      | .closing => some (r.settle { r with sending := .finished, closed := true } result)
      | _ => none

def step (r : Relay) (e : Event) : Option Relay := if r.outcome.isSome then none else select r e

def start : Relay := ⟨.waiting, [], false, [], none⟩

def Event.up : Event → List UInt8
  | .frame (some (.data bytes)) => bytes
  | _ => []

def Event.down : Event → List UInt8
  | .read (.ok bytes) => bytes
  | _ => []

/-- A frame of the request that is no data. -/
def Event.spoils : Event → Bool
  | .frame (some .trailers) => true
  | .frame (some .failed) => true
  | _ => false

def Event.isRead : Event → Bool
  | .read _ => true
  | _ => false

structure Keeps (events : List Event) (r : Relay) : Prop where
  sent : r.written ++ r.sending.rest = events.flatMap Event.up
  yielded : r.yielded.flatten = events.flatMap Event.down
  chunks : ∀ chunk ∈ r.yielded, chunk ≠ [] ∧ chunk.length ≤ capacity
  closed : r.closed = true ↔ r.sending = .finished
  ended : r.sending = .closing ∨ r.sending = .finished → .frame none ∈ events
  clean : r.outcome = some (.ok ()) → ∃ before, events = before ++ [.read (.ok [])]
  spoiled : ∀ e ∈ events, e.spoils = true →
    (∃ message, r.outcome = some (.error message)) ∧ r.closed = false

section

variable {events : List Event} {r r' : Relay} {e : Event} {message : String}

theorem writeAll_rest (rest : List UInt8) : (writeAll rest).rest = rest := by
  rw [writeAll]
  split
  · rename_i hrest
    rw [hrest]
    rfl
  · rfl

theorem writeAll_ne (rest : List UInt8) :
    writeAll rest ≠ .closing ∧ writeAll rest ≠ .finished := by
  rw [writeAll]
  split
  · exact ⟨by rintro ⟨⟩, by rintro ⟨⟩⟩
  · exact ⟨by rintro ⟨⟩, by rintro ⟨⟩⟩

theorem Keeps.not_spoiled (h : Keeps events r) (hrunning : r.outcome = none) :
    ∀ e ∈ events, e.spoils = false := by
  intro e he
  by_contra hspoils
  obtain ⟨⟨message, hfailed⟩, -⟩ := h.spoiled e he (Bool.not_eq_false _ ▸ hspoils)
  rw [hrunning] at hfailed
  cases hfailed

theorem Keeps.fail (h : Keeps events r) (hrunning : r.outcome = none) (hup : e.up = [])
    (hdown : e.down = []) (hclosed : e.spoils = true → r.closed = false) (message : String) :
    Keeps (events ++ [e]) (r.fail message) where
  sent := by rw [List.flatMap_append, List.flatMap_singleton, hup, List.append_nil, ← h.sent]; rfl
  yielded := by
    rw [List.flatMap_append, List.flatMap_singleton, hdown, List.append_nil, ← h.yielded]
    rfl
  chunks := h.chunks
  closed := h.closed
  ended hsending := List.mem_append_left _ (h.ended hsending)
  clean := by rintro ⟨⟩
  spoiled e' he' hspoils := by
    refine ⟨⟨message, rfl⟩, ?_⟩
    rcases List.mem_append.mp he' with hformer | hlast
    · rw [h.not_spoiled hrunning e' hformer] at hspoils
      cases hspoils
    · rw [List.mem_singleton.mp hlast] at hspoils
      exact hclosed hspoils

/-- A step of the sending. -/
theorem Keeps.send (h : Keeps events r) (hrunning : r.outcome = none) {written : List UInt8}
    {sending : Sending} {closed : Bool} (hdown : e.down = []) (hspoils : e.spoils = false)
    (hsent : written ++ sending.rest = r.written ++ r.sending.rest ++ e.up)
    (hclosed : closed = true ↔ sending = .finished)
    (hended : sending = .closing ∨ sending = .finished → .frame none ∈ events ++ [e]) :
    Keeps (events ++ [e]) { r with written, sending, closed } where
  sent := by rw [hsent, h.sent, List.flatMap_append, List.flatMap_singleton]
  yielded := by
    rw [List.flatMap_append, List.flatMap_singleton, hdown, List.append_nil]
    exact h.yielded
  chunks := h.chunks
  closed := hclosed
  ended := hended
  clean hclean := by
    rw [hrunning] at hclean
    cases hclean
  spoiled e' he' hspoils' := by
    rcases List.mem_append.mp he' with hformer | hlast
    · rw [h.not_spoiled hrunning e' hformer] at hspoils'
      cases hspoils'
    · rw [List.mem_singleton.mp hlast, hspoils] at hspoils'
      cases hspoils'

theorem received_keeps (h : Keeps events r) (hrunning : r.outcome = none)
    {result : Except String (List UInt8)} (hstep : received r result = some r') :
    Keeps (events ++ [.read result]) r' := by
  have hspoiled : ∀ e ∈ events ++ [Event.read result], e.spoils = false :=
    List.forall_mem_append.mpr ⟨h.not_spoiled hrunning, List.forall_mem_singleton.mpr rfl⟩
  have hsent : r.written ++ r.sending.rest =
      (events ++ [Event.read result]).flatMap Event.up := by
    rw [h.sent, List.flatMap_append, List.flatMap_singleton]
    exact (List.append_nil _).symm
  cases result with
  | error message =>
      cases hstep
      exact h.fail hrunning rfl rfl (by rintro ⟨⟩) message
  | ok bytes =>
      rw [received, Option.ite_none_left_eq_some] at hstep
      obtain ⟨hlength, hstep⟩ := hstep
      split at hstep
      · rename_i hempty
        cases hstep
        refine ⟨hsent, ?_, h.chunks, h.closed, fun hsending => List.mem_append_left _ (h.ended hsending),
          fun _ => ⟨events, by rw [hempty]⟩, fun e he hspoils => ?_⟩
        · rw [List.flatMap_append, List.flatMap_singleton, hempty, ← h.yielded]
          exact (List.append_nil _).symm
        · rw [hspoiled e he] at hspoils
          cases hspoils
      · rename_i hne
        cases hstep
        refine ⟨hsent, ?_, ?_, h.closed, fun hsending => List.mem_append_left _ (h.ended hsending),
          fun hclean => ?_, fun e he hspoils => ?_⟩
        · rw [List.flatMap_append, List.flatMap_singleton, List.flatten_append, h.yielded,
            List.flatten_singleton]
          rfl
        · exact List.forall_mem_append.mpr
            ⟨h.chunks, List.forall_mem_singleton.mpr ⟨hne, Nat.le_of_not_lt hlength⟩⟩
        · rw [hrunning] at hclean
          cases hclean
        · rw [hspoiled e he] at hspoils
          cases hspoils

theorem accept_keeps (h : Keeps events r) (hrunning : r.outcome = none)
    (hwaiting : r.sending = .waiting) (next : Option Frame) :
    Keeps (events ++ [.frame next]) (accept r next) := by
  have hopen : r.closed = false := by
    rw [← Bool.not_eq_true, h.closed, hwaiting]
    rintro ⟨⟩
  have hrest : r.sending.rest = [] := by rw [hwaiting]; rfl
  cases next with
  | none =>
      apply h.send hrunning rfl rfl
      · rw [hrest, List.append_nil]
        rfl
      · rw [hopen]
        exact ⟨by rintro ⟨⟩, by rintro ⟨⟩⟩
      · exact fun _ => List.mem_append_right _ (List.mem_singleton.mpr rfl)
  | some frame =>
      cases frame with
      | data bytes =>
          apply h.send hrunning rfl rfl
          · rw [hrest, List.append_nil, writeAll_rest]
            rfl
          · rw [hopen]
            exact ⟨by rintro ⟨⟩, fun hfinished => absurd hfinished (writeAll_ne bytes).2⟩
          · rintro (hclosing | hfinished)
            · exact absurd hclosing (writeAll_ne bytes).1
            · exact absurd hfinished (writeAll_ne bytes).2
      | trailers => exact h.fail hrunning rfl rfl (fun _ => hopen) _
      | failed => exact h.fail hrunning rfl rfl (fun _ => hopen) _

theorem wrote_keeps (h : Keeps events r) (hrunning : r.outcome = none) {rest : List UInt8}
    (hwriting : r.sending = .writing rest) {result : Except String Nat}
    (hstep : wrote r rest result = some r') : Keeps (events ++ [.wrote result]) r' := by
  have hopen : r.closed = false := by
    rw [← Bool.not_eq_true, h.closed, hwriting]
    rintro ⟨⟩
  cases result with
  | error message =>
      cases hstep
      exact h.fail hrunning rfl rfl (by rintro ⟨⟩) message
  | ok n =>
      cases n with
      | zero =>
          cases hstep
          exact h.fail hrunning rfl rfl (by rintro ⟨⟩) _
      | succ n =>
          simp only [wrote, Option.ite_none_right_eq_some] at hstep
          obtain ⟨hlength, hstep⟩ := hstep
          cases hstep
          apply h.send hrunning rfl rfl
          · rw [writeAll_rest, List.append_assoc, List.take_append_drop, hwriting]
            exact (List.append_nil _).symm
          · rw [hopen]
            exact ⟨by rintro ⟨⟩, fun hfinished => absurd hfinished (writeAll_ne _).2⟩
          · rintro (hclosing | hfinished)
            · exact absurd hclosing (writeAll_ne _).1
            · exact absurd hfinished (writeAll_ne _).2

theorem select_keeps (h : Keeps events r) (hrunning : r.outcome = none)
    (hstep : select r e = some r') : Keeps (events ++ [e]) r' := by
  have hsame : r.sending.rest = [] → ∀ sending : Sending, sending.rest = [] →
      r.written ++ sending.rest = r.written ++ r.sending.rest ++ [] := by
    intro hrest sending hnone
    rw [hrest, hnone, List.append_nil, List.append_nil]
  cases e with
  | read result => exact received_keeps h hrunning hstep
  | frame next =>
      rw [select] at hstep
      split at hstep
      · rename_i hwaiting
        cases hstep
        exact accept_keeps h hrunning hwaiting next
      · cases hstep
  | wrote result =>
      rw [select] at hstep
      split at hstep
      · rename_i rest hwriting
        exact wrote_keeps h hrunning hwriting hstep
      · cases hstep
  | flushed result =>
      rw [select] at hstep
      split at hstep
      · rename_i hflushing
        cases hstep
        cases result with
        | error message => exact h.fail hrunning rfl rfl (by rintro ⟨⟩) message
        | ok _ =>
            apply h.send hrunning rfl rfl (hsame (by rw [hflushing]; rfl) .waiting rfl)
            · rw [h.closed, hflushing]
              exact ⟨by rintro ⟨⟩, by rintro ⟨⟩⟩
            · rintro (⟨⟨⟩⟩ | ⟨⟨⟩⟩)
      · cases hstep
  | shutdown result =>
      rw [select] at hstep
      split at hstep
      · rename_i hclosing
        cases hstep
        cases result with
        | error message => exact h.fail hrunning rfl rfl (by rintro ⟨⟩) message
        | ok _ =>
            apply h.send hrunning rfl rfl (hsame (by rw [hclosing]; rfl) .finished rfl)
            · exact ⟨fun _ => rfl, fun _ => rfl⟩
            · exact fun _ => List.mem_append_left _ (h.ended (.inl hclosing))
      · cases hstep

theorem start_keeps : Keeps [] start where
  sent := rfl
  yielded := rfl
  chunks := by rintro chunk ⟨⟩
  closed := ⟨by rintro ⟨⟩, by rintro ⟨⟩⟩
  ended := by rintro (⟨⟨⟩⟩ | ⟨⟨⟩⟩)
  clean := by rintro ⟨⟩
  spoiled := by rintro e ⟨⟩

theorem step_keeps (h : Keeps events r) (hstep : step r e = some r') : Keeps (events ++ [e]) r' := by
  rw [step, Option.ite_none_left_eq_some, Option.not_isSome_iff_eq_none] at hstep
  exact select_keeps h hstep.1 hstep.2

/-- The reading is never held up by the sending, and the sending can always go on. -/
theorem goes_on (hrunning : r.outcome = none) :
    (∀ bytes, bytes.length ≤ capacity → (step r (.read (.ok bytes))).isSome = true) ∧
      (r.sending ≠ .finished → ∃ e, e.isRead = false ∧ (step r e).isSome = true) := by
  have hstep (e : Event) : step r e = select r e := by
    rw [step, hrunning]
    rfl
  refine ⟨fun bytes hlength => ?_, fun hgoing => ?_⟩
  · rw [hstep, select, received, if_neg (Nat.not_lt.mpr hlength)]
    split
    · rfl
    · rfl
  · cases hsending : r.sending with
    | waiting =>
        refine ⟨.frame none, rfl, ?_⟩
        rw [hstep, select, hsending]
        rfl
    | writing rest =>
        refine ⟨.wrote (.error ""), rfl, ?_⟩
        rw [hstep, select, hsending]
        rfl
    | flushing =>
        refine ⟨.flushed (.ok ()), rfl, ?_⟩
        rw [hstep, select, hsending]
        rfl
    | closing =>
        refine ⟨.shutdown (.ok ()), rfl, ?_⟩
        rw [hstep, select, hsending]
        rfl
    | finished => exact absurd hsending hgoing

end

/-- A frame is written in two parts, and an answer arrives after the request has ended. -/
def sampleEvents : List Event :=
  [.frame (some (.data [1, 2, 3])), .wrote (.ok 2), .read (.ok [7]), .wrote (.ok 1),
    .flushed (.ok ()), .frame none, .shutdown (.ok ()), .read (.ok [8, 9]), .read (.ok [])]

end Pishoo.Relay
