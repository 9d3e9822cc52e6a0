import Vdc.Probe.Basic

/-!
# Rehearsals

The probe against a far side that follows a script: the bytes at each place of the script are sent
when as many frames have come from the probe, and after the last of them nothing more is sent. What
the probe does then is determined, without any waiting.
-/

namespace Vdc.Probe

/-- How many frames the probe has sent. -/
def framesSent (p : Probe) : Nat :=
  (Frame.payloads Frame.maxLength p.manager.link.written).length

/-- What the far side has done by now, from what it had done after `due` frames. -/
def cue (script : List (List UInt8)) (due : Nat) (p : Probe) : Probe :=
  let link := p.manager.link.deliver ((script.take p.framesSent).drop due).flatten
  { p with manager := { p.manager with
    link := { link with ended := link.ended || decide (script.length ≤ p.framesSent) } } }

/-- Goes on for some receipts, until the probe has ended or nothing will come any more. -/
def rehearseFor (script : List (List UInt8)) : Nat → Nat → Probe → Probe
  | 0, _, p => p
  | fuel + 1, due, p =>
    match p.phase with
    | .ended _ => p
    | _ =>
      let p := cue script due p
      let next := (p.step p.manager.fullReads).1
      if next.manager.backlog = p.manager.backlog && next.framesSent = p.framesSent then next
      else rehearseFor script fuel p.framesSent next

/-- Goes on to the end. Every receipt takes a frame of the script or is the last. -/
def rehearse (script : List (List UInt8)) (p : Probe) : Probe :=
  rehearseFor script (script.flatten.length + script.length + 2) 0 p

end Vdc.Probe
