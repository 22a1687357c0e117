import Ipmitool.Sol.Resend
import Ipmitool.Lan.Counting

/-! # Session sequence numbers

Whatever happens to an interface, in any order of commands, serial-over-LAN packets, resends,
keepalives, openings and closings, the packets of an active session are numbered one after the other
(`run_counted`): in the RMCP+ transport from the first packet of the active state on, in the IPMI
1.5 transport as soon as the counter is seeded.

The one packet that does not move the counter is a Get Channel Authentication Capabilities request
in IPMI 1.5 format, which the RMCP+ transport builds while the BMC's session id is zero. A BMC that
hands out the id zero gets one in an active session, and then two packets with one number. -/

namespace Ipmitool.Sol.Sequence

open Ipmitool.Lib.Machine Ipmitool.Core.Types Ipmitool.Crypto.Mac Ipmitool.Lanplus.State
open Ipmitool.Lanplus.Build Ipmitool.Lanplus.Send Ipmitool.Lanplus.Counting Ipmitool.Sol.Resend
open Ipmitool.Lanplus.Steps (packets Tame moves_sendIpmiCmd moves_recvSol moves_sendSol
  moves_keepalive)

variable {K : Primitives} {A : Ipmitool.Lan.Send.Auth} {N : Numbering} {s t : St}

theorem Happens.sound {U : St → St → Prop} (hU : ∀ {s t}, U s t → Sound N s → Sound N t)
    (hhandler : ∀ (ss : Session) (b : Bool),
      N.counter { ss with solInputHandler := b } = N.counter ss ∧
      (N.live { ss with solInputHandler := b } ↔ N.live ss) ∧
      (N.ready ss → N.ready { ss with solInputHandler := b }))
    (h : Happens U s t) (hs : Sound N s) : Sound N t := by
  cases h with
  | use h => exact hU h hs
  | @handler ss b hss =>
    obtain ⟨hcounter, hlive, hready⟩ := hhandler ss b
    exact (Beat.silent (silent_session hss hcounter hlive.mp hready)).sound hs

theorem Use.sound (h : Use K s t) (hs : Sound lanplus s) : Sound lanplus t := by
  have hF : Tame K true Sounds := tame_of_beats fun h hs => h.sound hs
  cases h with
  | «open» h => exact Ipmitool.Lanplus.Handshake.moves_open opening_sounds _ _ _ h hs
  | close h => exact Ipmitool.Lanplus.Handshake.moves_close opening_sounds _ _ _ h hs
  | sendIpmiCmd h => exact moves_sendIpmiCmd hF _ _ _ _ h hs
  | sendSol h => exact moves_sendSol hF _ _ _ _ h hs
  | recvSol h => exact moves_recvSol hF _ _ _ h hs
  | keepalive h => exact moves_keepalive hF _ _ _ h hs

theorem Call.sound (h : Ipmitool.Lan.Correlation.Call A s t)
    (hs : Sound Ipmitool.Lan.Counting.lan s) :
    Sound Ipmitool.Lan.Counting.lan t := by
  have hF := Ipmitool.Lan.Counting.tame_sounds
  cases h with
  | sendCmd h => exact Ipmitool.Lan.Counting.sendCmd_sound h hs
  | sendSol h => exact Ipmitool.Lan.Steps.moves_sendSol hF _ _ _ _ h hs
  | recvSol h => exact Ipmitool.Lan.Steps.moves_recvSol hF _ _ _ h hs
  | keepalive h => exact Ipmitool.Lan.Steps.moves_keepalive hF _ _ _ h hs
  | «open» h => exact Ipmitool.Lan.Counting.open_sound h hs
  | close h => exact Ipmitool.Lan.Counting.close_sound h (.inl hs)

theorem run_of_steps {U : St → St → Prop} (hclosed : s.intf.session = none) (htrace : s.trace = [])
    (hstep : ∀ {s t}, Happens U s t → Sound N s → Sound N t)
    (hrun : Relation.ReflTransGen (Happens U) s t) :
    Sound N t := by
  have hnone : ∀ ss, s.intf.session ≠ some ss := by
    intro ss hss
    rw [hclosed] at hss
    cases hss
  induction hrun with
  | refl =>
    refine ⟨?_, fun ss hss => absurd hss (hnone ss), fun ss hss _ => absurd hss (hnone ss)⟩
    rw [htrace]
    exact lawful_nil
  | tail _ h ih => exact hstep h ih

/-- **The sequence numbers of a run**, in both transports, from a new interface on. -/
theorem run_counted (K : Primitives) (A : Ipmitool.Lan.Send.Auth) (s t : St)
    (hclosed : s.intf.session = none) (htrace : s.trace = []) :
    (Relation.ReflTransGen (Happens (Use K)) s t → Sound lanplus t) ∧
      (Relation.ReflTransGen (Happens (Ipmitool.Lan.Correlation.Call A)) s t →
        Sound Ipmitool.Lan.Counting.lan t) := by
  constructor
  · exact run_of_steps hclosed htrace fun h hs =>
      Happens.sound (fun h hs => Use.sound h hs) (fun ss b => ⟨rfl, Iff.rfl, id⟩) h hs
  · exact run_of_steps hclosed htrace fun h hs =>
      Happens.sound (fun h hs => Call.sound h hs) (fun ss b => ⟨rfl, Iff.rfl, id⟩) h hs

open Ipmitool.Lanplus.Establishment in
theorem run_counted_opened : ∃ fd t, Ipmitool.Lanplus.Open.«open» (Primitives.tabled [])
    (openingState 0 suiteZeroAnswers) = .ok (fd, t) ∧ Sound lanplus t := by
  have hrun : returns (Ipmitool.Lanplus.Open.«open» (Primitives.tabled []))
      (openingState 0 suiteZeroAnswers) (fun fd _ => decide (0 ≤ fd)) = true := by decide +kernel
  obtain ⟨fd, t, hopen, -⟩ := exists_of_returns hrun
  refine ⟨fd, t, hopen, (run_counted (Primitives.tabled []) ⟨fun _ _ => [], fun _ _ => [],
    fun _ => []⟩ _ t
    rfl rfl).1 (.single (.use (.open hopen)))⟩

/-- The law without the exception: behind every packet comes the next number. -/
def Successive (trace : List Event) : Prop := (packets trace).IsChain fun x y =>
  x.1 = true → y.1 = true → sequenceNumber y.2 = nextSeq (sequenceNumber x.2)

instance (trace : List Event) : Decidable (Successive trace) :=
  inferInstanceAs (Decidable ((packets trace).IsChain fun x y =>
    x.1 = true → y.1 = true → sequenceNumber y.2 = nextSeq (sequenceNumber x.2)))

open Ipmitool.Lanplus.Establishment in
/-- The answers of a BMC that speaks suite zero and hands out the session id zero. -/
def idZeroAnswers : List (Option (List UInt8)) :=
  some (handshakePacket ptOpenResponse ([0, 0, 0, 0, 1, 0, 0, 0, 0, 0, 0,
    0] ++ List.replicate 24 0)) ::
    suiteZeroAnswers.tail

/-- A new interface with one try for each command. -/
def oneTry : St where
  intf := { oem := some .i82571spt, ssnParams := { cipherSuiteId := 0, retry := 1 } }
  net := { inbox := idZeroAnswers }

/-- Two packets of an active session with one number: the BMC handed out the session id zero. -/
theorem not_successive_idZero : ∃ s t, s.intf.session = none ∧ s.trace = [] ∧
    Relation.ReflTransGen (Happens (Use (Primitives.tabled []))) s t ∧ ¬ Successive t.trace := by
  have hrun : returns (Ipmitool.Lanplus.Open.«open» (Primitives.tabled [])) oneTry (fun _ s =>
      returns (sendIpmiCmd (Primitives.tabled []) (Ipmitool.Lanplus.Open.authCapRequest 0x0e 4))
        s fun _ s =>
        returns (sendIpmiCmd (Primitives.tabled []) getDeviceId) s fun _ s =>
          decide (¬ Successive s.trace)) = true := by
    decide +kernel
  obtain ⟨fd, s, hopen, hrun⟩ := exists_of_returns hrun
  obtain ⟨b, u, hold, hrun⟩ := exists_of_returns hrun
  obtain ⟨b', t, hnew, hrun⟩ := exists_of_returns hrun
  refine ⟨oneTry, t, rfl, rfl, ?_, of_decide_eq_true hrun⟩
  exact ((Relation.ReflTransGen.single (.use (.open hopen))).tail (.use (.sendIpmiCmd hold))).tail
    (.use (.sendIpmiCmd hnew))

end Ipmitool.Sol.Sequence
