import Accumulator.Proofs.Accounts
import Accumulator.Proofs.Display

/-!
Piping: a debugger that is given a text and one that finds the same text on standard input do the
same. Debuggers on whose sides the same commands are on offer take the same ones at a pause, say
the same of them, and have the same on offer after it; so sessions that differ in nothing else
stay in this relation. A text offers the same commands in both ways as long as its carriage
returns stand only before newlines: elsewhere the two ways do not trim a line alike.
-/
namespace Accumulator
open Text

namespace CommandText

/-! ## Lines in both ways -/

/-- Every carriage return of the text is followed by a newline. -/
def ReturnsEndLines (text : List Char) : Prop :=
  ∀ before after, text = before ++ '\r' :: after → after.head? = some '\n'

theorem returnsEndLines_nil : ReturnsEndLines [] := fun _ _ split => absurd split (by simp)

theorem returnsEndLines_cons {c : Char} {text : List Char} :
    ReturnsEndLines (c :: text) ↔ (c = '\r' → text.head? = some '\n') ∧ ReturnsEndLines text := by
  constructor
  · intro returns
    refine ⟨fun first => returns [] text (by rw [first]; rfl), fun before after split => ?_⟩
    exact returns (c :: before) after (by rw [split]; rfl)
  · rintro ⟨first, rest⟩ before after split
    cases before with
    | nil =>
      obtain ⟨rfl, rfl⟩ := List.cons.inj split
      exact first rfl
    | cons d before => exact rest before after (List.cons.inj split).2

instance decidableReturnsEndLines : DecidablePred ReturnsEndLines
  | [] => .isTrue returnsEndLines_nil
  | _ :: text =>
    haveI := decidableReturnsEndLines text
    decidable_of_iff _ returnsEndLines_cons.symm

/-- A line with a newline behind it has a carriage return at its end at most. -/
theorem ReturnsEndLines.at_end {line rest before after : List Char} (returns : ReturnsEndLines (line ++ '\n' :: rest))
    (unbroken : '\n' ∉ line) (split : line = before ++ '\r' :: after) : after = [] := by
  have next := returns before (after ++ '\n' :: rest) (by rw [split]; simp)
  cases after with
  | nil => rfl
  | cons c after =>
    obtain rfl : c = '\n' := Option.some.inj next
    exact absurd (by rw [split]; simp) unbroken

theorem ReturnsEndLines.rest {line rest : List Char} (returns : ReturnsEndLines (line ++ '\n' :: rest)) :
    ReturnsEndLines rest := by
  intro before after split
  exact returns (line ++ '\n' :: before) after (by rw [split]; simp)

/-- A text without a newline has no carriage return. -/
theorem ReturnsEndLines.not_mem {line : List Char} (returns : ReturnsEndLines line) (unbroken : '\n' ∉ line) :
    '\r' ∉ line := by
  intro member
  obtain ⟨before, after, split⟩ := List.append_of_mem member
  obtain ⟨rest, rfl⟩ := List.head?_eq_some_iff.mp (returns before after split)
  exact unbroken (by rw [split]; simp)

theorem trimReturns_of_not_last {line : List Char} (other : line.getLast? ≠ some '\r') :
    next.trimReturns line = line := by
  unfold next.trimReturns
  rw [← List.head?_reverse] at other
  cases reversed : line.reverse with
  | nil => rw [List.reverse_eq_nil_iff.mp reversed]; rfl
  | cons c rest =>
    rw [reversed] at other
    rw [List.dropWhile_cons_of_neg (by simpa using other), ← reversed, List.reverse_reverse]

theorem trimReturns_concat (line : List Char) : next.trimReturns (line ++ ['\r']) = next.trimReturns line := by
  unfold next.trimReturns
  rw [List.reverse_append]
  rfl

theorem dropMark_eq_trimReturns {line : List Char}
    (at_end : ∀ before after, line = before ++ '\r' :: after → after = []) :
    dropMark '\r' line = next.trimReturns line := by
  unfold dropMark
  split
  · rename_i last
    obtain ⟨before, rfl⟩ := List.getLast?_eq_some_iff.mp last
    have single : before.getLast? ≠ some '\r' := by
      intro twice
      obtain ⟨first, rfl⟩ := List.getLast?_eq_some_iff.mp twice
      exact absurd (at_end first ['\r'] (by simp)) (List.cons_ne_nil _ _)
    rw [List.dropLast_concat, trimReturns_concat, trimReturns_of_not_last single]
  · rename_i other
    exact (trimReturns_of_not_last other).symm

theorem lines_line {line : List Char} (unbroken : '\n' ∉ line) (rest : List Char) :
    lines (line ++ '\n' :: rest) = dropMark '\r' line :: lines rest := by
  unfold lines
  rw [cutAfter_append unbroken, List.map_cons]
  simp

theorem lines_last {line : List Char} (unbroken : '\n' ∉ line) (nonempty : line ≠ []) : lines line = [line] := by
  have unmarked : line.getLast? ≠ some '\n' := fun last => unbroken (List.mem_of_getLast? last)
  unfold lines
  rw [cutAfter_of_not_mem unbroken nonempty, List.map_singleton, if_neg unmarked]

theorem commands_lines {text : List Char} (returns : ReturnsEndLines text) :
    (lines text).flatMap commands = ofPiped text := by
  induction text using SourceLine.lines_induction with
  | last line unbroken =>
    by_cases nonempty : line = []
    · subst nonempty
      rfl
    · have other : line.getLast? ≠ some '\r' := fun last => returns.not_mem unbroken (List.mem_of_getLast? last)
      rw [lines_last unbroken nonempty, ofPiped_last unbroken nonempty, trimReturns_of_not_last other,
        List.flatMap_singleton]
  | line line rest unbroken ih =>
    have trimmed := dropMark_eq_trimReturns fun _ _ => returns.at_end unbroken
    rw [lines_line unbroken, ofPiped_line unbroken, List.flatMap_cons, ih returns.rest, trimmed]

-- A carriage return that ends the text is a command in the text, and nothing on standard input.
example : ofText ";\r" = ["", "\r"] ∧ ofPiped ";\r".toList = [""] := by decide

end CommandText

namespace Debugger

/-! ## Pauses with the same commands on offer -/

/-- What is taken depends on the commands alone. -/
theorem Takes.unique {commands taken taken' left left' : List String} {action action' : Action}
    (takes : Takes commands taken action left) (takes' : Takes commands taken' action' left') :
    taken = taken' ∧ action = action' ∧ left = left' := by
  have determined {taken left action} (takes : Takes commands taken action left) :
      (takeQueued commands).1 = taken ∧ verdict commands = (action, left) := by
    unfold verdict
    cases takes with
    | acts passes acts left =>
      rw [takeQueued_of_acts passes acts]
      exact ⟨rfl, rfl⟩
    | runsOut passes =>
      rw [takeQueued_of_passes passes]
      exact ⟨rfl, rfl⟩
  obtain ⟨first, second⟩ := determined takes
  obtain ⟨first', second'⟩ := determined takes'
  obtain ⟨actions, lefts⟩ := Prod.mk.inj (second.symm.trans second')
  exact ⟨first.symm.trans first', actions, lefts⟩

/-- The same commands are on offer to both debuggers, and they show the machine in the same way. -/
structure OffersSame (d e : Debugger) (input input' : List UInt8) : Prop where
  radix : d.radix = e.radix
  commands : ∃ commands, d.Offers input commands ∧ e.Offers input' commands

theorem OffersSame.take {d e : Debugger} {input input' : List UInt8} (same : OffersSame d e input input') :
    let p := Debugger.take d.readsInput d.queued input
    let q := Debugger.take e.readsInput e.queued input'
    p.taken = q.taken ∧ p.action = q.action ∧
      OffersSame { d with queued := p.queued } { e with queued := q.queued } p.input q.input := by
  obtain ⟨radix, commands, first, second⟩ := same
  obtain ⟨left, takes, rest⟩ := takes_of_offers first
  obtain ⟨left', takes', rest'⟩ := takes_of_offers second
  obtain ⟨taken, action, rfl⟩ := takes.unique takes'
  exact ⟨taken, action, radix, left, rest, rest'⟩

end Debugger

namespace Session

/-- The sessions differ in their debuggers at most, and in what stands on standard input, which
    nothing else reads; and the debuggers, if there are any, have the same commands on offer. -/
structure Offered (s t : Session) : Prop where
  machine : s.machine = t.machine
  limit : s.limit = t.limit
  channel : s.channel = t.channel
  terminal : s.terminal = t.terminal
  apart : t.channel ≠ .console none
  debugger : (s.debugger = none ∧ t.debugger = none) ∨
    ∃ d e, s.debugger = some d ∧ t.debugger = some e ∧ Debugger.OffersSame d e s.input t.input

theorem Offered.pause {s t : Session} (offered : s.Offered t) :
    s.pause.1 = t.pause.1 ∧ s.pause.2.Offered t.pause.2 := by
  obtain ⟨first, second⟩ | ⟨d, e, first, second, same⟩ := offered.debugger
  · rw [pause_of_alone first, pause_of_alone second]
    exact ⟨rfl, offered⟩
  · obtain ⟨taken, action, after⟩ := same.take
    rw [pause_of_attached first rfl, pause_of_attached second rfl]
    refine ⟨action, offered.machine, offered.limit, offered.channel, ?terminal, offered.apart, ?debugger⟩
    case terminal =>
      dsimp only [Debugger.messages]
      rw [taken, action, same.radix, offered.machine, offered.terminal]
    case debugger =>
      dsimp only
      rw [action]
      split
      · exact .inl ⟨rfl, rfl⟩
      · exact .inr ⟨_, _, rfl, rfl, after⟩

/-- A cycle reads from standard input only on a console without a script. -/
theorem after_of_apart {channel : Channel} (apart : channel ≠ .console none) (c : Cycle) :
    channel.inputAfter c = id ∧ channel.after c ≠ .console none := by
  cases channel with
  | buffer input output => exact ⟨rfl, nofun⟩
  | console script =>
    cases script with
    | none => exact absurd rfl apart
    | some script => exact ⟨rfl, nofun⟩

theorem Offered.cycle {s t : Session} (offered : s.Offered t) : s.cycle = t.cycle := by
  have apart := offered.apart
  unfold Session.cycle next?
  rw [offered.machine, offered.channel]
  split
  · rfl
  · rfl
  · rename_i console
    exact absurd console apart

theorem Offered.step {s t : Session} (offered : s.Offered t) :
    s.step.1 = t.step.1 ∧ s.step.2.Offered t.step.2 := by
  obtain ⟨unread, apart⟩ := after_of_apart offered.apart t.cycle
  unfold Session.step
  rw [offered.cycle, apply_eq, apply_eq, offered.channel, offered.terminal, unread]
  exact ⟨rfl, rfl, offered.limit, rfl, rfl, apart, offered.debugger⟩

theorem simulation_offered : Simulation id Offered where
  stop offered := by
    unfold stop?
    rw [offered.machine, offered.limit]
  pause := Offered.pause
  step offered := ⟨congrArg _ (congrArg ending? offered.step.1), offered.step.2⟩
  limit offered _ := { offered with limit := rfl }

theorem offered_attach (s : Session) (text : String) (radix : Radix) (apart : s.channel ≠ .console none)
    (returns : CommandText.ReturnsEndLines text.toList) :
    (s.attach (some text) radix).Offered ({ s with input := text.toUTF8.data.toList }.attach none radix) := by
  refine ⟨rfl, rfl, rfl, rfl, apart, .inr ⟨_, _, rfl, rfl, rfl, CommandText.ofText text, .given _ radix _, ?_⟩⟩
  rw [CommandText.toUTF8_eq_bytes, CommandText.ofText, CommandText.commands_lines returns]
  exact .piped [] radix text.toList

/-- A debugger that is given a text does what one does that finds the text on standard input,
    where nothing else reads that and carriage returns stand before newlines only: all calls that
    drive the session on end in the same way and leave the same machine, the same input and output
    and the same writes to either stream. -/
theorem calls_piped {s : Session} {text : String} (apart : s.channel ≠ .console none)
    (returns : CommandText.ReturnsEndLines text.toList) (radix : Radix) {cs : List Call} (drive : ∀ c ∈ cs, c.Drives) :
    let given := s.attach (some text) radix
    let piped := { s with input := text.toUTF8.data.toList }.attach none radix
    (∀ c : Call, c.Drives → (given.calls cs).result? c = (piped.calls cs).result? c) ∧
      (given.calls cs).machine = (piped.calls cs).machine ∧ (given.calls cs).limit = (piped.calls cs).limit ∧
      (given.calls cs).channel = (piped.calls cs).channel ∧ (given.calls cs).terminal = (piped.calls cs).terminal := by
  intro given piped
  have offered := simulation_offered.calls (s.offered_attach text radix apart returns) drive
  refine ⟨fun c drives => ?_, offered.machine, offered.limit, offered.channel, offered.terminal⟩
  have same := (simulation_offered.call offered drives).1
  rwa [Option.map_id, id, id] at same

theorem calls_piped_stepping :
    countingSession.channel ≠ .console none ∧ CommandText.ReturnsEndLines "s\r\n;r;q".toList ∧
      let given := countingSession.attach (some "s\r\n;r;q") .decimal
      let piped := { countingSession with input := "s\r\n;r;q".toUTF8.data.toList }.attach none .decimal
      (given.calls [.run 1, .limit none]).result? (.run 2) = (piped.calls [.run 1, .limit none]).result? (.run 2) ∧
        (given.calls [.run 1, .limit none, .run 2]).terminal = (piped.calls [.run 1, .limit none, .run 2]).terminal := by
  have apart : countingSession.channel ≠ .console none := nofun
  have returns : CommandText.ReturnsEndLines "s\r\n;r;q".toList := by decide
  have before : ∀ c ∈ [Call.run 1, .limit none], c.Drives := by simp [Call.Drives]
  have all : ∀ c ∈ [Call.run 1, .limit none, .run 2], c.Drives := by simp [Call.Drives]
  have first := calls_piped apart returns .decimal before
  have later := calls_piped apart returns .decimal all
  exact ⟨apart, returns, first.1 (.run 2) trivial, later.2.2.2.2⟩

end Session
end Accumulator
