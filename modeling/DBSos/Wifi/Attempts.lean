import DBSos.Lib.Trace
import DBSos.Wifi.Mlme

/-!
# Attempts

How far an attempt to connect has got is a matter of what was received since the last
`associate`, whatever the driver made of it: answers of the network in their order, and a
message 3 under the key of the network. A station is to follow the attempt: it is
associated only at its end, and a frame that the attempt does not wait for changes nothing.
-/

namespace DBSos.Wifi

open DBSos.Lib

/-- How far an attempt has got. -/
inductive Stage where
  | idle
  | started
  | authenticated
  | associated
  | greeted
  | keyed
deriving DecidableEq

/-- The driver, and how far its attempt has got. -/
structure Attempt where
  station : Station
  stage : Stage
deriving DecidableEq

/-- What happens: a call, a received frame, or the end of `dhcp::run`. -/
inductive Event where
  | associate (ssid : Frame)
  | disconnect
  | frame (data : Frame)
  | dhcp (leased : Bool)

/-- The key frame in a data frame. -/
def keyFrame (data : Frame) : Frame := data.body.drop 8

namespace Attempt

variable (env : Environment) (a : Attempt)

/-- A message 3 under the key of the network. -/
def Genuine (data : Frame) : Prop :=
  ∃ pmk ∈ a.station.currentPmk env,
    Supplicant.MicVerifies env (a.station.supplicant.kck env pmk) (keyFrame data)

instance (data : Frame) : Decidable (a.Genuine env data) := by
  unfold Genuine
  infer_instance

/-- A frame that the attempt waits for, from the network. -/
def Expected (data : Frame) : Prop :=
  transmitter data = a.station.bssid ∧
    match received data with
    | .auth => a.stage = .started
    | .assoc => a.stage = .authenticated
    | .eapol => a.stage = .associated ∨ a.stage = .greeted
    | _ => False

instance (data : Frame) : Decidable (a.Expected data) := by
  unfold Expected
  cases received data <;> infer_instance

/-- How far an expected frame brings the attempt. -/
def advance (data : Frame) : Stage :=
  match received data with
  | .auth =>
    if data.body.length < 6 then a.stage else if AuthSuccess data then .authenticated else .idle
  | .assoc =>
    if data.body.length < 4 then a.stage else if AssocSuccess data then .associated else .idle
  | .eapol =>
    if (keyFrame data).length < 45 then a.stage
    else if a.stage = .associated then .greeted
    else if a.Genuine env data then .keyed else a.stage
  | _ => a.stage

/-- How far the attempt is behind an event. -/
def stageAfter : Event → Stage
  | .associate ssid =>
    if (a.station.associate env ssid).1 ∈ [.authSent, .openAuthSent] then .started else a.stage
  | .disconnect => .idle
  | .frame data => if a.Expected data then a.advance env data else a.stage
  | .dhcp _ => a.stage

/-- The driver behind an event; while `dhcp::run` runs, nothing else does. -/
def stationAfter : Event → Option Station
  | .associate ssid =>
    if a.station.state = .associated then none else some (a.station.associate env ssid).2
  | .disconnect => if a.station.state = .associated then none else some a.station.disconnect
  | .frame data =>
    if a.station.state = .associated then none else some (a.station.processRxFrame env data)
  | .dhcp leased =>
    if a.station.state = .associated then some (a.station.afterDhcp leased) else none

/-- One step of a run. -/
def step (event : Event) : Option Attempt :=
  (a.stationAfter env event).map fun station => ⟨station, a.stageAfter env event⟩

/-- A station that is associated has come to the end of its attempt. -/
def Follows : Prop :=
  a.station.state = .associated ∨ a.station.state = .connected → a.stage = .keyed

/-- Nothing but the list of stations heard is different. -/
def SameConnection (before after : Station) : Prop :=
  after = { before with scanResults := after.scanResults }

/-- What a step must not do wrong. -/
def Lawful (before : Attempt) (event : Event) (after : Attempt) : Prop :=
  after.Follows ∧
    match event with
    | .frame data => ¬ before.Expected data → SameConnection before.station after.station
    | _ => True

/-- A frame that finds the driver where it would lead. -/
def Idle (data : Frame) : Prop :=
  match received data with
  | .auth =>
    data.body.length < 6 ∨
      a.station.state = if AuthSuccess data then .associating else .disconnected
  | .assoc =>
    data.body.length < 4 ∨
      if AssocSuccess data then
        a.station.state = .handshaking ∧
          a.station.supplicant =
            a.station.supplicant.start env a.station.currentChannel a.station.bssid
      else a.station.state = .disconnected
  | .eapol =>
    (keyFrame data).length < 45 ∨ a.station.supplicant.state ≠ .waitingMsg1 ∧
      a.station.supplicant.state ≠ .waitingMsg3
  | _ => True

/-- A message 3 is awaited only where the network has sent message 1, and is genuine. -/
def Answers (data : Frame) : Prop :=
  received data = .eapol → a.station.supplicant.state = .waitingMsg3 →
    a.stage = .greeted ∧ a.Genuine env data

/-- What a step has to meet. -/
def Guard : Event → Prop
  | .frame data => a.Idle env data ∨ a.Expected data ∧ a.Answers env data
  | _ => True

variable {env a}

/-! ## What a frame changes -/

theorem SameConnection.state {s s' : Station} (same : SameConnection s s') :
    s'.state = s.state := by
  rw [same]

theorem sameConnection_state {s : Station} {state : WifiState} :
    SameConnection s { s with state := state } ↔ s.state = state := by
  constructor
  · intro same
    exact same.state.symm
  · rintro rfl
    rfl

theorem sameConnection_supplicant {s : Station} {state : WifiState} {supplicant : Supplicant} :
    SameConnection s { s with state := state, supplicant := supplicant } ↔
      s.state = state ∧ s.supplicant = supplicant := by
  constructor
  · intro same
    exact ⟨same.state.symm, (congrArg Station.supplicant same).symm⟩
  · rintro ⟨rfl, rfl⟩
    rfl

theorem sameConnection_handleScanResponse (s : Station) (data : Frame) :
    SameConnection s (s.handleScanResponse data) := by
  unfold Station.handleScanResponse
  split
  · rfl
  · split_ifs <;> rfl

theorem handleMsg1_waiting {s : Supplicant} {msg : Frame} (waiting : s.state = .waitingMsg1)
    (long : 45 ≤ msg.length) : (s.handleMsg1 env msg).state = .waitingMsg3 := by
  unfold Supplicant.handleMsg1
  rw [if_neg (not_or.mpr ⟨not_not.mpr waiting, not_lt.mpr long⟩)]

theorem handleMsg3_waiting {s : Supplicant} {msg : Frame} (waiting : s.state = .waitingMsg3)
    (long : 45 ≤ msg.length) : (s.handleMsg3 msg).state = .handshakeDone := by
  unfold Supplicant.handleMsg3
  rw [if_neg (not_or.mpr ⟨not_not.mpr waiting, not_lt.mpr long⟩)]

theorem handleAuth_same_iff (s : Station) (data : Frame) :
    SameConnection s (s.handleAuthResponse data) ↔
      data.body.length < 6 ∨
        s.state = if AuthSuccess data then .associating else .disconnected := by
  unfold Station.handleAuthResponse
  by_cases small : data.body.length < 6
  · rw [if_pos small]
    exact iff_of_true rfl (.inl small)
  · rw [if_neg small, or_iff_right small]
    split_ifs <;> exact sameConnection_state

theorem handleAssoc_same_iff (s : Station) (data : Frame) :
    SameConnection s (s.handleAssocResponse env data) ↔
      data.body.length < 4 ∨
        if AssocSuccess data then
          s.state = .handshaking ∧ s.supplicant = s.supplicant.start env s.currentChannel s.bssid
        else s.state = .disconnected := by
  unfold Station.handleAssocResponse
  by_cases small : data.body.length < 4
  · rw [if_pos small]
    exact iff_of_true rfl (.inl small)
  · rw [if_neg small, or_iff_right small]
    split_ifs
    · exact sameConnection_supplicant
    · exact sameConnection_state

/-- The cases of `handle_eapol`. -/
theorem handleEapol_cases {s : Station} {data : Frame} (eapol : received data = .eapol) :
    ((keyFrame data).length < 45 ∨
        s.supplicant.state ≠ .waitingMsg1 ∧ s.supplicant.state ≠ .waitingMsg3) ∧
      s.handleEapol env data.body = s ∨
    45 ≤ (keyFrame data).length ∧ s.supplicant.state = .waitingMsg1 ∧
      (s.handleEapol env data.body).state = s.state ∧
      (s.handleEapol env data.body).supplicant.state = .waitingMsg3 ∨
    45 ≤ (keyFrame data).length ∧ s.supplicant.state = .waitingMsg3 ∧
      (s.handleEapol env data.body).state = .associated ∧
      (s.handleEapol env data.body).supplicant.state = .handshakeDone := by
  have ether : 8 ≤ data.body.length ∧ etherType data.body = eapolEtherType := by
    unfold received at eapol
    dsimp only at eapol
    split_ifs at eapol with _ _ _ _ _ _ both
    exact both
  unfold Station.handleEapol
  rw [if_neg (not_or.mpr ⟨not_lt.mpr ether.1, not_not.mpr ether.2⟩)]
  dsimp only
  rw [show data.body.drop 8 = keyFrame data from rfl]
  by_cases long : (keyFrame data).length < 45
  · refine .inl ⟨.inl long, ?_⟩
    have first : s.supplicant.handleMsg1 env (keyFrame data) = s.supplicant := if_pos (.inr long)
    have third : s.supplicant.handleMsg3 (keyFrame data) = s.supplicant := if_pos (.inr long)
    split
    · exact congrArg (fun supplicant => { s with supplicant := supplicant }) first
    · next waiting =>
        rw [third, if_neg (by rw [waiting]; nofun)]
    · rfl
  · have long := not_lt.mp long
    split
    · next waiting => exact .inr (.inl ⟨long, waiting, rfl, handleMsg1_waiting waiting long⟩)
    · next waiting =>
        have done := handleMsg3_waiting waiting long
        refine .inr (.inr ⟨long, waiting, ?_⟩)
        rw [if_pos done]
        exact ⟨rfl, done⟩
    · next first third => exact .inl ⟨.inr ⟨first, third⟩, rfl⟩

/-- A frame leaves the connection as it is exactly where it finds it so. -/
theorem same_iff_idle (data : Frame) :
    SameConnection a.station (a.station.processRxFrame env data) ↔ a.Idle env data := by
  unfold Station.processRxFrame Idle
  rcases kind : received data with _ | _ | _ | _ | _
  · exact iff_of_true rfl trivial
  · exact iff_of_true (sameConnection_handleScanResponse _ _) trivial
  · exact handleAuth_same_iff _ _
  · exact handleAssoc_same_iff _ _
  · dsimp only
    have states (same : SameConnection a.station (a.station.handleEapol env data.body)) :
        (a.station.handleEapol env data.body).supplicant.state = a.station.supplicant.state :=
      congrArg (fun s => s.supplicant.state) same
    rcases handleEapol_cases kind with ⟨idle, same⟩ | ⟨long, waiting, -, moved⟩ |
      ⟨long, waiting, -, moved⟩
    · rw [same]
      exact iff_of_true rfl idle
    · refine iff_of_false (fun same => ?_) (not_or.mpr ⟨not_lt.mpr long, fun idle => ?_⟩)
      · have stays := states same
        rw [moved, waiting] at stays
        cases stays
      · exact idle.1 waiting
    · refine iff_of_false (fun same => ?_) (not_or.mpr ⟨not_lt.mpr long, fun idle => ?_⟩)
      · have stays := states same
        rw [moved, waiting] at stays
        cases stays
      · exact idle.2 waiting

/-- Where a frame can bring the driver. -/
theorem processRxFrame_state (s : Station) (data : Frame) :
    (s.processRxFrame env data).state = s.state ∨
    (s.processRxFrame env data).state ∈ [.associating, .handshaking, .disconnected] ∨
    received data = .eapol ∧ 45 ≤ (keyFrame data).length ∧ s.supplicant.state = .waitingMsg3 ∧
      (s.processRxFrame env data).state = .associated := by
  unfold Station.processRxFrame
  rcases kind : received data with _ | _ | _ | _ | _
  · exact .inl rfl
  · exact .inl (sameConnection_handleScanResponse s data).state
  · dsimp only [Station.handleAuthResponse]
    split_ifs <;> simp
  · dsimp only [Station.handleAssocResponse]
    split_ifs <;> simp
  · rcases handleEapol_cases kind with ⟨-, same⟩ | ⟨-, -, same, -⟩ | ⟨long, waiting, moved, -⟩
    · exact .inl (congrArg Station.state same)
    · exact .inl same
    · exact .inr (.inr ⟨rfl, long, waiting, moved⟩)

/-! ## Steps -/

theorem not_expected_of_keyed {data : Frame} (keyed : a.stage = .keyed) : ¬ a.Expected data := by
  rintro ⟨-, waits⟩
  rw [keyed] at waits
  revert waits
  cases received data <;> simp

/-- A step of the attempt that ends it takes a genuine message 3. -/
theorem stageAfter_keyed {data : Frame} (expected : a.Expected data) (kind : received data = .eapol)
    (long : 45 ≤ (keyFrame data).length) :
    a.stageAfter env (.frame data) = .keyed ↔ a.stage = .greeted ∧ a.Genuine env data := by
  have waits := expected.2
  rw [kind] at waits
  unfold stageAfter advance
  dsimp only
  rw [if_pos expected, kind]
  dsimp only
  rw [if_neg (not_lt.mpr long)]
  rcases waits with first | third
  · simp [first]
  · by_cases genuine : a.Genuine env data <;> simp [third, genuine]

/-- A frame that finds the driver where it would lead, or that the attempt waits for. -/
theorem frame_lawful_iff {data : Frame} (follows : a.Follows) :
    a.Lawful (.frame data) ⟨a.station.processRxFrame env data, a.stageAfter env (.frame data)⟩ ↔
      a.Guard env (.frame data) := by
  have ended (waiting : a.station.supplicant.state = .waitingMsg3)
      (kind : received data = .eapol) (moves : ¬ a.Idle env data) :
      45 ≤ (keyFrame data).length ∧
        (a.station.processRxFrame env data).state = .associated := by
    unfold Idle at moves
    unfold Station.processRxFrame
    rw [kind] at moves ⊢
    rcases @handleEapol_cases env _ _ kind with ⟨idle, -⟩ | ⟨-, first, -⟩ | ⟨long, -, moved, -⟩
    · exact absurd idle moves
    · rw [waiting] at first
      cases first
    · exact ⟨long, moved⟩
  unfold Lawful Guard
  dsimp only
  rw [same_iff_idle]
  constructor
  · rintro ⟨atEnd, unexpected⟩
    by_cases idle : a.Idle env data
    · exact .inl idle
    have expected : a.Expected data := by_contra fun not => idle (unexpected not)
    refine .inr ⟨expected, fun kind waiting => ?_⟩
    obtain ⟨long, associated⟩ := ended waiting kind idle
    exact (stageAfter_keyed expected kind long).mp (atEnd (.inl associated))
  · rintro (idle | ⟨expected, answers⟩)
    · have same := ((same_iff_idle data).mpr idle).state
      refine ⟨fun connected => ?_, fun _ => idle⟩
      have before : a.stage = .keyed := follows (same ▸ connected)
      rw [stageAfter, if_neg (not_expected_of_keyed before)]
      exact before
    · refine ⟨fun connected => ?_, fun unexpected => absurd expected unexpected⟩
      dsimp only at connected ⊢
      have before : a.stage ≠ .keyed := fun keyed => not_expected_of_keyed keyed expected
      rcases @processRxFrame_state env a.station data with same | left |
        ⟨kind, long, waiting, -⟩
      · exact absurd (follows (same ▸ connected)) before
      · rcases connected with associated | connected
        · rw [associated] at left
          exact absurd left (by decide)
        · rw [connected] at left
          exact absurd left (by decide)
      · exact (stageAfter_keyed expected kind long).mpr (answers kind waiting)

theorem associate_follows {ssid : Frame} (follows : a.Follows) :
    Follows ⟨(a.station.associate env ssid).2, a.stageAfter env (.associate ssid)⟩ := by
  unfold Follows stageAfter Station.associate
  dsimp only
  by_cases none : a.station.radioCount = 0
  · rw [if_pos none]
    nofun
  rw [if_neg none]
  rcases a.station.network ssid with _ | r
  · exact follows
  · nofun

/-- A step does nothing wrong exactly where it meets the guard. -/
theorem step_lawful_iff {after : Attempt} {event : Event} (follows : a.Follows)
    (taken : a.step env event = some after) : a.Lawful event after ↔ a.Guard env event := by
  obtain ⟨station, moved, rfl⟩ := Option.map_eq_some_iff.mp taken
  cases event with
  | associate ssid =>
    unfold stationAfter at moved
    split_ifs at moved
    obtain rfl := Option.some.inj moved
    exact iff_of_true ⟨associate_follows follows, trivial⟩ trivial
  | disconnect =>
    unfold stationAfter at moved
    split_ifs at moved
    obtain rfl := Option.some.inj moved
    exact iff_of_true ⟨nofun, trivial⟩ trivial
  | frame data =>
    unfold stationAfter at moved
    split_ifs at moved
    obtain rfl := Option.some.inj moved
    exact frame_lawful_iff follows
  | dhcp leased =>
    unfold stationAfter at moved
    split_ifs at moved with running
    obtain rfl := Option.some.inj moved
    exact iff_of_true ⟨fun _ => follows (.inl running), trivial⟩ trivial

/-! ## Runs -/

/-- The driver behind `scan`: no attempt has begun. -/
structure Initial (a : Attempt) : Prop where
  state : a.station.state = .disconnected ∨ a.station.state = .noRadio
  stage : a.stage = .idle

theorem Initial.follows (initial : a.Initial) : a.Follows := by
  rintro (associated | connected)
  · rcases initial.state with state | state <;> rw [state] at associated <;> cases associated
  · rcases initial.state with state | state <;> rw [state] at connected <;> cases connected

/-- Every step of a run is lawful exactly where every frame that the driver acts on is one
that the attempt waits for, and every message 3 that it takes is genuine. -/
theorem lawful_iff_guarded {start final : Attempt} {taken : List (Transition Attempt Event)}
    (initial : start.Initial)
    (trace : Trace (fun a event after => a.step env event = some after) start taken final) :
    (∀ transition ∈ taken, transition.before.Lawful transition.label transition.after) ↔
      Guarded (Guard env) taken :=
  trace.forall_iff_guarded Follows initial.follows
    (fun _ _ _ follows guard moved => ((step_lawful_iff follows moved).mpr guard).1)
    (fun _ _ _ follows moved => step_lawful_iff follows moved)

instance (data : Frame) : Decidable (a.Idle env data) := by
  unfold Idle
  cases received data <;> infer_instance

instance (event : Event) : Decidable (a.Guard env event) := by
  cases event <;> unfold Guard Answers <;> infer_instance

/-- Hashes that repeat their key. -/
def repeating : Environment where
  mac := [2, 0, 0, 0, 0, 1]
  find := fun _ => some 0
  reveal := fun _ => some (Supplicant.zeros 8)
  pbkdf2 := fun _ _ => List.replicate 32 7
  prf := fun key _ => key ++ Supplicant.zeros 16
  mac128 := fun key _ => key

/-- A network in range, and a station that is not part of it. -/
def network : Frame := [2, 0, 0, 0, 0, 2]
def stranger : Frame := [2, 0, 0, 0, 0, 3]

/-- One network has been heard. -/
def scanned : Attempt where
  station :=
    { state := .disconnected
      radioCount := 1
      scanResults := [⟨network, [0x61], 6, 0x11, true, true⟩]
      ssid := []
      bssid := Supplicant.zeros 6
      channel := 0
      currentChannel := 2412
      supplicant :=
        { state := .disconnected
          anonce := Supplicant.zeros 32
          snonce := Supplicant.zeros 32
          pmk := Supplicant.zeros 32
          ptk := Supplicant.zeros 48
          kckValid := false
          sa := Supplicant.zeros 6
          aa := Supplicant.zeros 6
          replayCounter := 0 } }
  stage := .idle

theorem initial_scanned : scanned.Initial := ⟨.inl rfl, rfl⟩

/-- The header of a frame. -/
def header (control : UInt8) (sender : Frame) : Frame :=
  [control, 0, 0, 0] ++ repeating.mac ++ sender ++ sender ++ [0, 0]

/-- An authentication, an association and two key frames, of which the last has a MIC. -/
def answers (sender : Frame) (mic : UInt8) : List Event :=
  let eapol := header 0x08 sender ++ [0xAA, 0xAA, 3, 0, 0, 0, 0x88, 0x8E]
  [.frame (header 0xB0 sender ++ [0, 0, 2, 0, 0, 0]),
    .frame (header 0x10 sender ++ [1, 4, 0, 0]),
    .frame (eapol ++ Supplicant.zeros 99),
    .frame (eapol ++ Supplicant.zeros 77 ++ List.replicate 16 mic ++ Supplicant.zeros 6)]

/-- A run of the driver from one network heard. -/
def run (events : List Event) : Option (List (Transition Attempt Event) × Attempt) :=
  record (fun a event => a.step repeating event) scanned events

/-- The network answers, and the station is associated at the end of its attempt. -/
theorem lawful_answers :
    ∃ r, run (.associate [0x61] :: answers network 7) = some r ∧
      r.2.station.state = .associated ∧ r.2.stage = .keyed ∧
      ∀ transition ∈ r.1, transition.before.Lawful transition.label transition.after := by
  have ok : ((run (.associate [0x61] :: answers network 7)).map fun r =>
      decide (r.2.station.state = .associated ∧ r.2.stage = .keyed ∧
        ∀ transition ∈ r.1, transition.before.Guard repeating transition.label)) =
      some true := by decide +kernel
  obtain ⟨r, recorded, holds⟩ := Option.map_eq_some_iff.mp ok
  obtain ⟨associated, keyed, guarded⟩ := of_decide_eq_true holds
  exact ⟨r, recorded, associated, keyed,
    (lawful_iff_guarded initial_scanned (trace_of_record recorded)).mpr guarded⟩

/-- Four frames of a stranger, without a call, and the station is associated. -/
theorem stranger_associates :
    ¬ ∀ (env : Environment) (start final : Attempt) (taken : List (Transition Attempt Event)),
      start.Initial → Trace (fun a event after => a.step env event = some after) start taken final →
        ∀ transition ∈ taken, transition.before.Lawful transition.label transition.after := by
  intro always
  have ok : ((run (answers stranger 0)).map fun r =>
      decide (r.2.station.state = .associated ∧ r.2.stage = .idle)) = some true := by decide +kernel
  obtain ⟨r, recorded, holds⟩ := Option.map_eq_some_iff.mp ok
  obtain ⟨associated, idle⟩ := of_decide_eq_true holds
  have trace := trace_of_record recorded
  have lawful := always repeating scanned r.2 r.1 initial_scanned trace
  have follows : r.2.Follows := Trace.final_of_throughout trace
    ⟨initial_scanned.follows, fun transition member => (lawful transition member).1⟩
  have keyed := follows (.inl associated)
  rw [idle] at keyed
  cases keyed

end Attempt

end DBSos.Wifi
