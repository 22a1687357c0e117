import Ipmitool.Core.Interface
import Ipmitool.Sdr.Conversion

/-! # Setting a threshold

`setThreshold` of `cmd/sensor.zig`, the command `sensor thresh`, with `setSensorThresholds` and
`thresholdValueToRaw`, and `ipmi_sdr_get_sensor_thresholds` of `cmd/sdr.zig`. Values are rationals,
as in `Sdr.Conversion`. The repository that a sensor is looked up in, and `strtod`, are parameters.

Before one threshold is set, the thresholds of the sensor are read and the value is compared with
those that the threshold consults (`consults`). `setThreshold_sends_iff` says when the request is
sent exactly if the value keeps the thresholds in order: a value that is not in order may pass, and
with negative values one that is may not. -/

namespace Ipmitool.Cmd.Sensor

open Ipmitool.Core.Types Ipmitool.Core.Interface Ipmitool.Lib.Bytes Ipmitool.Lib.Machine
  Ipmitool.Lib.Dialogue
open Ipmitool.Sdr.Conversion

variable {β : Type}

/-! ### The code -/

def recordTypeFull : UInt8 := 0x01
def cmdSetSensorThresholds : UInt8 := 0x26
def cmdGetSensorThresholds : UInt8 := 0x27

def upperNonRecovSpecified : UInt8 := 0x20
def upperCritSpecified : UInt8 := 0x10
def upperNonCritSpecified : UInt8 := 0x08
def lowerNonRecovSpecified : UInt8 := 0x04
def lowerCritSpecified : UInt8 := 0x02
def lowerNonCritSpecified : UInt8 := 0x01

/-- Whom the interface talks to. -/
structure Intf where
  targetIpmbAddr : UInt8
  targetAddr : UInt32
  targetChannel : UInt8
  deriving DecidableEq

/-- A request and whom it goes to. -/
structure Sent where
  targetAddr : UInt32
  targetChannel : UInt8
  command : Command
  deriving DecidableEq

/-- The interface, the device and what was asked and answered. -/
abbrev SensorWorld (β : Type) := World Intf β Sent (Option Reply)

/-- A program of the sensor module. -/
abbrev Talk (β : Type) := Prog Fault (SensorWorld β)

/-- What is used of the record of a sensor. -/
structure SensorRecord where
  ownerId : UInt8
  keysFlags : UInt8
  sensorNum : UInt8
  eventType : UInt8
  full : FullSensor

/-- An entry of the repository. -/
structure SdrEntry where
  type : UInt8
  record : Option SensorRecord

/-- What the module has from elsewhere: `ipmi_sdr_find_sdr_byid`, `str2double`, the byte order of
the host and the curves of the sensors. -/
structure Env where
  find : List UInt8 → Option SdrEntry
  str2double : List UInt8 → Option ℚ
  endian : Endian
  curve : UInt8 → ℚ → ℚ

/-- `BRIDGE_TO_SENSOR`. -/
def bridgeToSensor (i : Intf) (addr chan : UInt8) : Bool :=
  ¬ (chan = 0 ∧ i.targetIpmbAddr ≠ 0 ∧ i.targetIpmbAddr = addr ∨
    i.targetAddr = addr.toUInt32 ∧ i.targetChannel = chan)

/-- A request to the owner of a sensor. -/
def sendBridged (D : Device β Sent (Option Reply)) (target channel : UInt8) (command : Command) :
    Talk β (Option Reply) := do
  let i := (← get).vars
  if bridgeToSensor i target channel then
    modify fun w => { w with vars := { w.vars with targetAddr := target.toUInt32, targetChannel := channel } }
    let rsp ← ask D ⟨target.toUInt32, channel, command⟩
    modify fun w => { w with vars := { w.vars with targetAddr := i.targetAddr, targetChannel := i.targetChannel } }
    return rsp
  else ask D ⟨i.targetAddr, i.targetChannel, command⟩

/-- `SensorSetThreshRq` with one threshold. -/
def setThreshRq (sensor threshold setting : UInt8) : Option (List UInt8) :=
  if threshold = upperNonRecovSpecified then some [sensor, threshold, 0, 0, 0, 0, 0, setting]
  else if threshold = upperCritSpecified then some [sensor, threshold, 0, 0, 0, 0, setting, 0]
  else if threshold = upperNonCritSpecified then some [sensor, threshold, 0, 0, 0, setting, 0, 0]
  else if threshold = lowerNonCritSpecified then some [sensor, threshold, setting, 0, 0, 0, 0, 0]
  else if threshold = lowerCritSpecified then some [sensor, threshold, 0, setting, 0, 0, 0, 0]
  else if threshold = lowerNonRecovSpecified then some [sensor, threshold, 0, 0, setting, 0, 0, 0]
  else none

/-- `setSensorThresholds`. -/
def setSensorThresholds (D : Device β Sent (Option Reply))
    (sensor threshold setting target lun channel : UInt8) : Talk β (Option Reply) :=
  match setThreshRq sensor threshold setting with
  | none => return none
  | some data => sendBridged D target channel ⟨netfnSensor, lun &&& 3, cmdSetSensorThresholds, data⟩

/-- `setThresholdOne`. -/
def setThresholdOne (D : Device β Sent (Option Reply))
    (num mask setting target lun channel : UInt8) :
    Talk β ℤ := do
  match ← setSensorThresholds D num mask setting target lun channel with
  | none => return -1
  | some rsp => return if rsp.ccode ≠ 0 then -1 else 0

/-- `ipmi_sdr_get_sensor_thresholds`. -/
def getSensorThresholds (D : Device β Sent (Option Reply)) (sensor target lun channel : UInt8) :
    Talk β (Option Reply) :=
  sendBridged D target channel ⟨netfnSensor, lun &&& 3, cmdGetSensorThresholds, [sensor]⟩

/-- `thresholdValueToRaw`. -/
def thresholdValueToRaw (env : Env) (full : FullSensor) (value : ℚ) : UInt8 :=
  if full.analog.val ≠ 3 then convertSensorValueToRaw env.endian full value
  else if value > 255 then 255
  else if value < 0 then 0
  else UInt8.ofNat ⌊value⌋.toNat

/-- The comparisons of `setThreshold`, of the values `val` that the device has, with the mask `data`
of those that are readable. -/
def invalidThreshold (settingMask data : UInt8) (val : ℕ → ℚ) (setting : ℚ) : Bool :=
  if settingMask &&& upperNonRecovSpecified ≠ 0 then
    data &&& upperNonRecovSpecified ≠ 0 ∧
      (data &&& upperCritSpecified ≠ 0 ∧ setting ≤ val 5 ∨ data &&& upperNonCritSpecified ≠ 0 ∧
        setting ≤ val 4)
  else if settingMask &&& upperCritSpecified ≠ 0 then
    data &&& upperCritSpecified ≠ 0 ∧
      (data &&& upperNonRecovSpecified ≠ 0 ∧ setting ≥ val 6 ∨ data &&& upperNonCritSpecified ≠ 0 ∧
        setting ≤ val 4)
  else if settingMask &&& upperNonCritSpecified ≠ 0 then
    data &&& upperNonCritSpecified ≠ 0 ∧
      (data &&& upperNonRecovSpecified ≠ 0 ∧ setting ≥ val 6 ∨ data &&& upperCritSpecified ≠ 0 ∧
        setting ≥ val 5 ∨
        data &&& lowerNonCritSpecified ≠ 0 ∧ setting ≤ val 1)
  else if settingMask &&& lowerNonCritSpecified ≠ 0 then
    data &&& lowerNonCritSpecified ≠ 0 ∧
      (data &&& lowerCritSpecified ≠ 0 ∧ setting ≤ val 2 ∨ data &&& lowerNonRecovSpecified ≠ 0 ∧
        setting ≤ val 3 ∨
        data &&& upperNonCritSpecified ≠ 0 ∧ setting ≥ val 4)
  else if settingMask &&& lowerCritSpecified ≠ 0 then
    data &&& lowerCritSpecified ≠ 0 ∧
      (data &&& lowerNonCritSpecified ≠ 0 ∧ setting ≥ val 1 ∨ data &&& lowerNonRecovSpecified ≠ 0 ∧
        setting ≤ val 3)
  else if settingMask &&& lowerNonRecovSpecified ≠ 0 then
    data &&& lowerNonRecovSpecified ≠ 0 ∧
      (data &&& lowerNonCritSpecified ≠ 0 ∧ setting ≥ val 1 ∨ data &&& lowerCritSpecified ≠ 0 ∧
        setting ≥ val 2)
  else false

/-- What `sensor thresh` is asked to set. -/
inductive Settings where
  | upper (setting1 setting2 setting3 : ℚ)
  | lower (setting1 setting2 setting3 : ℚ)
  | one (settingMask : UInt8) (setting : ℚ)

/-- The mask of the name of a threshold. -/
def maskOf (thresh : List UInt8) : Option UInt8 :=
  if thresh = ascii "unr" then some upperNonRecovSpecified
  else if thresh = ascii "ucr" then some upperCritSpecified
  else if thresh = ascii "unc" then some upperNonCritSpecified
  else if thresh = ascii "lnc" then some lowerNonCritSpecified
  else if thresh = ascii "lcr" then some lowerCritSpecified
  else if thresh = ascii "lnr" then some lowerNonRecovSpecified
  else none

/-- The arguments of `sensor thresh` behind the name of the sensor. -/
def parseSettings (env : Env) (thresh : List UInt8) (values : List (List UInt8)) :
    Option Settings :=
  if thresh = ascii "upper" ∨ thresh = ascii "lower" then
    match values with
    | v1 :: v2 :: v3 :: _ => do
      let setting1 ← env.str2double v1
      let setting2 ← env.str2double v2
      let setting3 ← env.str2double v3
      return if thresh = ascii "upper" then .upper setting1 setting2 setting3
        else .lower setting1 setting2 setting3
    | _ => none
  else do
    let settingMask ← maskOf thresh
    let setting ← env.str2double (values.headD [])
    return .one settingMask setting

/-- A threshold set without a look at the others. -/
def setUnchecked (D : Device β Sent (Option Reply)) (env : Env) (r : SensorRecord)
    (settings : List (UInt8 × ℚ)) : Talk β ℤ :=
  settings.foldlM (fun ret s => do
    let rc ← setThresholdOne D r.sensorNum s.1 (thresholdValueToRaw env r.full s.2) r.ownerId
        (r.keysFlags &&& 0x3)
      ((r.keysFlags >>> 4) &&& 0xf)
    return if rc ≠ 0 then -1 else ret) 0

/-- One threshold, after the others were read. -/
def setChecked (D : Device β Sent (Option Reply)) (env : Env) (r : SensorRecord)
    (settingMask : UInt8) (setting : ℚ) :
    Talk β ℤ := do
  match ← getSensorThresholds D r.sensorNum r.ownerId (r.keysFlags &&& 0x3)
    ((r.keysFlags >>> 4) &&& 0xf) with
  | none => return -1
  | some rsp =>
    if rsp.ccode ≠ 0 ∨ rsp.dataLen < 7 then return -1
    let val (i : ℕ) : ℚ := max (convertSensorReading env.endian env.curve r.full (rsp.data i)) 0
    if invalidThreshold settingMask (rsp.data 0) val setting then return -1
    setThresholdOne D r.sensorNum settingMask (thresholdValueToRaw env r.full setting) r.ownerId
      (r.keysFlags &&& 0x3)
      ((r.keysFlags >>> 4) &&& 0xf)

/-- `setThreshold`. -/
def setThreshold (D : Device β Sent (Option Reply)) (env : Env)
    (argv : List (List UInt8)) : Talk β ℤ :=
  match argv with
  | id :: thresh :: value :: rest => do
    if id = ascii "help" then return 0
    match parseSettings env thresh (value :: rest) with
    | none => return -1
    | some settings =>
      match env.find id with
      | none => return -1
      | some sdr =>
        if sdr.type ≠ recordTypeFull then return -1
        match sdr.record with
        | none => throw .nullUnwrap
        | some r =>
          if r.eventType ≠ 1 then return -1
          match settings with
          | .upper setting1 setting2 setting3 =>
            setUnchecked D env r [(upperNonCritSpecified, setting1), (upperCritSpecified, setting2),
              (upperNonRecovSpecified, setting3)]
          | .lower setting1 setting2 setting3 =>
            setUnchecked D env r [(lowerNonRecovSpecified, setting1),
              (lowerCritSpecified, setting2), (lowerNonCritSpecified, setting3)]
          | .one settingMask setting => setChecked D env r settingMask setting
  | _ => return 0

/-! ### The order of thresholds -/

/-- The six thresholds. -/
inductive Threshold where
  | lnr
  | lcr
  | lnc
  | unc
  | ucr
  | unr
  deriving DecidableEq

namespace Threshold

/-- The place of a threshold in the order. -/
def rank : Threshold → ℕ
  | lnr => 0
  | lcr => 1
  | lnc => 2
  | unc => 3
  | ucr => 4
  | unr => 5

/-- Its bit in a mask. -/
def bit : Threshold → UInt8
  | lnr => lowerNonRecovSpecified
  | lcr => lowerCritSpecified
  | lnc => lowerNonCritSpecified
  | unc => upperNonCritSpecified
  | ucr => upperCritSpecified
  | unr => upperNonRecovSpecified

/-- Its place in the reply. -/
def index : Threshold → ℕ
  | lnc => 1
  | lcr => 2
  | lnr => 3
  | unc => 4
  | ucr => 5
  | unr => 6

/-- Its name. -/
def name : Threshold → List UInt8
  | lnr => ascii "lnr"
  | lcr => ascii "lcr"
  | lnc => ascii "lnc"
  | unc => ascii "unc"
  | ucr => ascii "ucr"
  | unr => ascii "unr"

/-- The thresholds that a value is compared with. -/
def consults : Threshold → List Threshold
  | unr => [ucr, unc]
  | ucr => [unr, unc]
  | unc => [unr, ucr, lnc]
  | lnc => [lcr, lnr, unc]
  | lcr => [lnc, lnr]
  | lnr => [lnc, lcr]

/-- A threshold that the mask has. -/
def Readable (mask : UInt8) (t : Threshold) : Prop := mask &&& t.bit ≠ 0

instance (mask : UInt8) (t : Threshold) : Decidable (Readable mask t) :=
  inferInstanceAs (Decidable (_ ≠ _))

/-- The thresholds of a set are strictly in order. -/
def Ordered (set : Threshold → Prop) (v : Threshold → ℚ) : Prop :=
  ∀ a b, set a → set b → a.rank < b.rank → v a < v b

/-- The readable thresholds, with the new one in place, are strictly in order. -/
def KeepsOrder (mask : UInt8) (v : Threshold → ℚ) (t : Threshold) (setting : ℚ) : Prop :=
  Ordered (fun a => Readable mask a ∨ a = t) (Function.update v t setting)

/-- The comparisons tell whether the order is kept. A value in order passes, if it is positive, or
the threshold is not readable, or no readable threshold below it is consulted. A value out of order
is seen, if the threshold is readable, by a readable threshold that is consulted: one below that is
not less or, the value not being positive, any, and one above that is not greater, the value not
being negative. -/
def Told (mask : UInt8) (v : Threshold → ℚ) (t : Threshold) (setting : ℚ) : Prop :=
  (KeepsOrder mask v t setting →
    Readable mask t → setting ≤ 0 → ∀ j ∈ consults t, j.rank < t.rank → ¬ Readable mask j) ∧
  (¬ KeepsOrder mask v t setting →
    Readable mask t ∧ ∃ j ∈ consults t, Readable mask j ∧
      if j.rank < t.rank then setting ≤ v j ∨ setting ≤ 0 else v j ≤ setting ∧ 0 ≤ setting)

section
variable {mask : UInt8} {t : Threshold} {v : Threshold → ℚ} {setting : ℚ}

theorem rank_ne {j : Threshold} (h : j ∈ consults t) : j ≠ t ∧ j.rank ≠ t.rank := by
  revert h
  cases t <;> cases j <;> decide

/-- The comparisons of the source, as a comparison with each threshold that is consulted. -/
theorem invalidThreshold_iff (val : ℕ → ℚ) :
    invalidThreshold t.bit mask val setting = true ↔
      Readable mask t ∧ ∃ j ∈ consults t, Readable mask j ∧
        if j.rank < t.rank then setting ≤ val j.index else val j.index ≤ setting := by
  cases t <;> simp +decide [invalidThreshold, bit, consults, Readable, rank, index,
    upperNonRecovSpecified, upperCritSpecified, upperNonCritSpecified, lowerNonRecovSpecified,
    lowerCritSpecified, lowerNonCritSpecified]
  exact decide_eq_true_iff

theorem KeepsOrder.between (h : KeepsOrder mask v t setting) {j : Threshold} (hne : j ≠ t)
    (hj : Readable mask j) :
    (j.rank < t.rank → v j < setting) ∧ (t.rank < j.rank → setting < v j) := by
  have hbelow := h j t (.inl hj) (.inr rfl)
  have habove := h t j (.inr rfl) (.inl hj)
  rw [Function.update_self, Function.update_of_ne hne] at hbelow habove
  exact ⟨hbelow, habove⟩

/-- With zero in the place of negative values, the comparisons tell whether the order is kept as
`Told` says. -/
theorem valid_iff_told {val : ℕ → ℚ} (hval : ∀ j, val j.index = max (v j) 0) :
    (¬ invalidThreshold t.bit mask val setting = true ↔ KeepsOrder mask v t setting) ↔
    Told mask v t setting := by
  have hbelow : ∀ j, setting ≤ val j.index ↔ setting ≤ v j ∨ setting ≤ 0 :=
    fun j => by rw [hval, le_max_iff]
  have habove : ∀ j, val j.index ≤ setting ↔ v j ≤ setting ∧ 0 ≤ setting :=
    fun j => by rw [hval, max_le_iff]
  rw [invalidThreshold_iff]
  simp only [hbelow, habove]
  by_cases hkeeps : KeepsOrder mask v t setting
  · have htold : Told mask v t setting ↔
        (Readable mask t → setting ≤ 0 → ∀ j ∈ consults t, j.rank < t.rank → ¬ Readable mask j) :=
      ⟨fun h => h.1 hkeeps, fun h => ⟨fun _ => h, fun hnot => absurd hkeeps hnot⟩⟩
    rw [htold, iff_true_right hkeeps]
    constructor
    · rintro hvalid hreadable hle j hj hlt hjr
      exact hvalid ⟨hreadable, j, hj, hjr, by rw [if_pos hlt]; exact .inr hle⟩
    · rintro htold ⟨hreadable, j, hj, hjr, hwrong⟩
      obtain ⟨hne, hrank⟩ := rank_ne hj
      obtain ⟨hlow, hhigh⟩ := hkeeps.between hne hjr
      split_ifs at hwrong with hlt
      · rcases hwrong with hle | hle
        · exact absurd hle (not_le.mpr (hlow hlt))
        · exact htold hreadable hle j hj hlt hjr
      · exact absurd hwrong.1 (not_le.mpr (hhigh (by omega)))
  · rw [iff_false_right hkeeps, not_not]
    exact ⟨fun h => ⟨fun h' => absurd h' hkeeps, fun _ => h⟩, fun h => h.2 hkeeps⟩

end

end Threshold

/-! ### The command -/

open Threshold

/-- Whom the requests to the owner of a sensor go to. -/
def bridged (i : Intf) (target channel : UInt8) (command : Command) : Sent :=
  if bridgeToSensor i target channel then ⟨target.toUInt32, channel, command⟩
  else ⟨i.targetAddr, i.targetChannel, command⟩

theorem sendBridged_run (D : Device β Sent (Option Reply)) (target channel : UInt8) (command : Command)
    (w : SensorWorld β) :
    sendBridged D target channel command w = .ok ((D w.device (bridged w.vars target channel command)).1,
      w.asked D (bridged w.vars target channel command)) := by
  rw [sendBridged, bind_run (show (get : Talk β (SensorWorld β)) w = .ok (w, w) from rfl), bridged]
  split_ifs with h <;> rfl

section
variable (r : SensorRecord)

/-- The LUN and the channel of the owner. -/
def SensorRecord.lun : UInt8 := r.keysFlags &&& 0x3
def SensorRecord.channel : UInt8 := (r.keysFlags >>> 4) &&& 0xf

/-- The request for the thresholds of a sensor. -/
def readRequest (i : Intf) : Sent :=
  bridged i r.ownerId r.channel ⟨netfnSensor, r.lun &&& 3, cmdGetSensorThresholds, [r.sensorNum]⟩

/-- The request that sets a threshold. -/
def setRequest (i : Intf) (t : Threshold) (setting : UInt8) : Sent :=
  bridged i r.ownerId r.channel
    ⟨netfnSensor, r.lun &&& 3, cmdSetSensorThresholds,
      (setThreshRq r.sensorNum t.bit setting).getD []⟩

/-- The values of the thresholds in a reply. -/
def reading (env : Env) (rsp : Reply) (t : Threshold) : ℚ :=
  convertSensorReading env.endian env.curve r.full (rsp.data t.index)

end

/-- The request that sets the threshold was sent. -/
def SetSent (env : Env) (r : SensorRecord) (i : Intf) (t : Threshold) (setting : ℚ)
    (evs : List (Sent × Option Reply)) : Prop :=
  ∃ e ∈ evs, e.1 = setRequest r i t (thresholdValueToRaw env r.full setting)

theorem maskOf_name (t : Threshold) : maskOf t.name = some t.bit ∧ t.name ≠ ascii "upper" ∧
    t.name ≠ ascii "lower" := by
  cases t <;> decide +kernel

@[simp] theorem bridged_command (i : Intf) (target channel : UInt8) (command : Command) :
    (bridged i target channel command).command = command := by
  unfold bridged
  split <;> rfl

theorem readRequest_ne (r : SensorRecord) (i : Intf) (t : Threshold) (setting : UInt8) :
    readRequest r i ≠ setRequest r i t setting := by
  intro h
  have hcmd := congrArg (fun q => q.command.cmd) h
  simp only [readRequest, setRequest, bridged_command] at hcmd
  exact absurd hcmd (by decide)

theorem setThreshRq_bit (t : Threshold) (num setting : UInt8) :
    setThreshRq num t.bit setting = some ((setThreshRq num t.bit setting).getD []) := by
  cases t <;> rfl

theorem setThresholdOne_run (D : Device β Sent (Option Reply)) (r : SensorRecord) (t : Threshold)
    (setting : UInt8) (w : SensorWorld β) :
    ∃ ret, setThresholdOne D r.sensorNum t.bit setting r.ownerId r.lun r.channel w =
      .ok (ret, w.asked D (setRequest r w.vars t setting)) := by
  have hsend : setSensorThresholds D r.sensorNum t.bit setting r.ownerId r.lun r.channel w =
      .ok ((D w.device (setRequest r w.vars t setting)).1,
        w.asked D (setRequest r w.vars t setting)) := by
    rw [setSensorThresholds, setThreshRq_bit]
    exact sendBridged_run D _ _ _ w
  rw [setThresholdOne, bind_run hsend]
  cases (D w.device (setRequest r w.vars t setting)).1 with
  | none => exact ⟨-1, rfl⟩
  | some rsp => exact ⟨_, rfl⟩

theorem setChecked_run (D : Device β Sent (Option Reply)) (env : Env) (r : SensorRecord)
    (t : Threshold) (setting : ℚ) (rsp : Reply) (w : SensorWorld β)
    (hreply : (D w.device (readRequest r w.vars)).1 = some rsp)
    (hok : rsp.ccode = 0 ∧ 7 ≤ rsp.dataLen) :
    ∃ ret w' evs, setChecked D env r t.bit setting w = .ok (ret, w') ∧ w'.log = w.log ++ evs ∧
      (SetSent env r w.vars t setting evs ↔ ¬ invalidThreshold t.bit (rsp.data 0)
        (fun i => max (convertSensorReading env.endian env.curve r.full (rsp.data i)) 0) setting =
          true) := by
  have hget : getSensorThresholds D r.sensorNum r.ownerId r.lun r.channel w =
      .ok (some rsp, w.asked D (readRequest r w.vars)) := by
    rw [← hreply]
    exact sendBridged_run D _ _ _ w
  have hgood : ¬ (rsp.ccode ≠ 0 ∨ rsp.dataLen < 7) := by
    rw [not_or, not_not]
    exact ⟨hok.1, Nat.not_lt.mpr hok.2⟩
  rw [setChecked]
  change ∃ ret w' evs, (getSensorThresholds D r.sensorNum r.ownerId r.lun r.channel >>= _) w =
    .ok (ret, w') ∧ _
  rw [bind_run hget]
  simp only [if_neg hgood]
  split_ifs with hinvalid
  · refine ⟨-1, _, [(readRequest r w.vars, some rsp)], rfl, by rw [World.asked_log, hreply], ?_⟩
    refine iff_of_false ?_ (not_not.mpr hinvalid)
    rintro ⟨e, he, hset⟩
    rw [List.mem_singleton.mp he] at hset
    exact readRequest_ne r w.vars t _ hset
  · obtain ⟨ret, hone⟩ := setThresholdOne_run D r t (thresholdValueToRaw env r.full setting)
      (w.asked D (readRequest r w.vars))
    let q := setRequest r w.vars t (thresholdValueToRaw env r.full setting)
    refine ⟨ret, _, [(readRequest r w.vars, some rsp),
      (q, (D (w.asked D (readRequest r w.vars)).device q).1)], hone, ?_, iff_of_true ⟨_,
      List.mem_cons_of_mem _ (List.mem_singleton_self _), rfl⟩ hinvalid⟩
    rw [World.asked_log, World.asked_log, hreply, List.append_assoc]
    rfl

theorem setThreshold_eq (D : Device β Sent (Option Reply)) {env : Env} (t : Threshold)
    {id text : List UInt8}
    (rest : List (List UInt8)) {r : SensorRecord} {setting : ℚ} (hid : id ≠ ascii "help")
    (hfind : env.find id = some ⟨recordTypeFull, some r⟩) (hevent : r.eventType = 1)
    (htext : env.str2double text = some setting) :
    setThreshold D env (id :: t.name :: text :: rest) = setChecked D env r t.bit setting := by
  obtain ⟨hmask, hupper, hlower⟩ := maskOf_name t
  have hparse : parseSettings env t.name (text :: rest) = some (.one t.bit setting) := by
    unfold parseSettings
    rw [if_neg (not_or.mpr ⟨hupper, hlower⟩), hmask, List.headD_cons, htext]
    rfl
  rw [setThreshold]
  simp only [if_neg hid, hparse, hfind, hevent, ne_eq, not_true_eq_false, if_false]

/-- When `sensor thresh` sets one threshold, the request is sent exactly if the order is kept, if
and only if the comparisons tell. -/
theorem setThreshold_sends_iff (D : Device β Sent (Option Reply)) (env : Env) (t : Threshold)
    (id text : List UInt8) (rest : List (List UInt8)) (r : SensorRecord) (rsp : Reply) (setting : ℚ)
    (w : SensorWorld β) (hid : id ≠ ascii "help")
    (hfind : env.find id = some ⟨recordTypeFull, some r⟩) (hevent : r.eventType = 1)
    (htext : env.str2double text = some setting)
    (hreply : (D w.device (readRequest r w.vars)).1 = some rsp)
    (hok : rsp.ccode = 0 ∧ 7 ≤ rsp.dataLen) :
    ∃ ret w' evs, setThreshold D env (id :: t.name :: text :: rest) w = .ok (ret, w') ∧
      w'.log = w.log ++ evs ∧
      ((SetSent env r w.vars t setting evs ↔ KeepsOrder (rsp.data 0)
        (reading r env rsp) t setting) ↔
        Told (rsp.data 0) (reading r env rsp) t setting) := by
  obtain ⟨ret, w', evs, hrun, hlog, hsent⟩ := setChecked_run D env r t setting rsp w hreply hok
  refine ⟨ret, w', evs, ?_, hlog, ?_⟩
  · rw [setThreshold_eq D t rest hid hfind hevent htext]
    exact hrun
  · rw [hsent]
    exact valid_iff_told fun j => rfl

/-! ### A sensor with two thresholds -/

/-- A sensor whose readings are its raw values. -/
def plainSensor : SensorRecord where
  ownerId := 0x20
  keysFlags := 0
  sensorNum := 1
  eventType := 1
  full := sensorOf .little .unsigned 0 plain

/-- The sensor is the only one, and the text is 40. -/
def plainEnv : Env where
  find _ := some ⟨recordTypeFull, some plainSensor⟩
  str2double text := if text = ascii "40" then some 40 else none
  endian := .little
  curve _ v := v

/-- A device whose lower non-critical threshold is 50 and whose upper critical threshold is 80. -/
def twoThresholds : Device Unit Sent (Option Reply) := fun _ q =>
  (some (if q.command.cmd = cmdGetSensorThresholds then Reply.of [0x11, 50, 0, 0, 0, 80, 0]
    else Reply.of []), ())

theorem reading_plain (n : UInt8) : convertSensorReading .little (fun _ v => v) plainSensor.full n =
    n.toNat := by
  have hm : plain.m = 1 := by decide
  have hb : plain.b = 0 := by decide
  have hexp : plain.bExp = 0 ∧ plain.rExp = 0 := by decide
  rw [plainSensor, reading_eq rfl, hm, hb, hexp.1, hexp.2]
  simp [codeValue]

theorem reading_two (t : Threshold) :
    reading plainSensor plainEnv (Reply.of [0x11, 50, 0, 0, 0, 80, 0]) t =
      if t = .lnc then 50 else if t = .ucr then 80 else 0 := by
  rw [reading]
  change convertSensorReading .little (fun _ v => v) plainSensor.full _ = _
  rw [reading_plain]
  cases t <;> rfl

/-- The upper critical threshold is set below the lower non-critical one. -/
theorem ucr_below_lnc : Ordered (Readable 0x11)
    (reading plainSensor plainEnv (Reply.of [0x11, 50, 0, 0, 0, 80, 0])) ∧
    ∃ ret w' evs, setThreshold twoThresholds plainEnv [ascii "t", ascii "ucr",
      ascii "40"] ⟨⟨0x20, 0x20, 0⟩, (), []⟩ =
        .ok (ret, w') ∧ w'.log = [] ++ evs ∧
      SetSent plainEnv plainSensor ⟨0x20, 0x20, 0⟩ .ucr 40 evs ∧
      ¬ KeepsOrder 0x11 (reading plainSensor plainEnv (Reply.of [0x11, 50, 0, 0, 0, 80,
        0])) .ucr 40 := by
  refine ⟨?_, ?_⟩
  · intro a b ha hb hlt
    rw [reading_two, reading_two]
    cases a <;> cases b <;> first | exact absurd ha (by decide) | exact absurd hb (by decide) |
      exact absurd hlt (by decide) | exact (by norm_num : (50 : ℚ) < 80)
  · obtain ⟨ret, w', evs, hrun, hlog, hsent⟩ :=
      setChecked_run twoThresholds plainEnv plainSensor .ucr 40
        (Reply.of [0x11, 50, 0, 0, 0, 80, 0]) ⟨⟨0x20, 0x20, 0⟩, (), []⟩ rfl ⟨rfl, by decide⟩
    refine ⟨ret, w', evs, ?_, hlog, hsent.mpr (by decide), fun hkeeps => ?_⟩
    · have heq : setThreshold twoThresholds plainEnv [ascii "t", Threshold.name .ucr, ascii "40"] =
          setChecked twoThresholds plainEnv plainSensor (Threshold.bit .ucr) 40 :=
        setThreshold_eq twoThresholds .ucr [] (by decide) rfl rfl (by decide)
      exact (congrFun heq _).trans hrun
    · have hlt := (hkeeps.between (j := .lnc) (by decide) (by decide)).1 (by decide)
      rw [reading_two] at hlt
      norm_num at hlt

/-- And it is told that 40 is in order for the lower non-critical one. -/
theorem setThreshold_sends_iff_lnc :
    ∃ ret w' evs, setThreshold twoThresholds plainEnv [ascii "t", ascii "lnc",
      ascii "40"] ⟨⟨0x20, 0x20, 0⟩, (), []⟩ =
        .ok (ret, w') ∧ w'.log = [] ++ evs ∧
      ((SetSent plainEnv plainSensor ⟨0x20, 0x20, 0⟩ .lnc 40 evs ↔
          KeepsOrder 0x11 (reading plainSensor plainEnv (Reply.of [0x11, 50, 0, 0, 0, 80,
            0])) .lnc 40) ↔
        Told 0x11 (reading plainSensor plainEnv (Reply.of [0x11, 50, 0, 0, 0, 80, 0])) .lnc 40) :=
  setThreshold_sends_iff twoThresholds plainEnv .lnc (ascii "t") (ascii "40") [] plainSensor _ 40 _
    (by decide) rfl rfl
    (by decide) rfl ⟨rfl, by decide⟩

end Ipmitool.Cmd.Sensor
