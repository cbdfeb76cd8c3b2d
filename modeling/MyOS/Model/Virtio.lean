import MyOS.Model.Virtq

/-! `kernel/drivers/virtio.c`: the set-up of the virtio sound device and the test beep. -/

namespace MyOS

open Effect

/-! ## `virtio_sound_init` -/

def virtioStatusAcknowledge : ℕ := 1
def virtioStatusDriver : ℕ := 2
def virtioStatusDriverOk : ℕ := 4
def virtioStatusFeaturesOk : ℕ := 8
def virtioStatusFailed : ℕ := 128

def modifyCfg (f : CommonCfg → CommonCfg) : Driver Unit :=
  modify fun s => { s with virtioSoundCfg := f s.virtioSoundCfg }

/-- `device_status = 0`: the device forgets what was set up and starts counting at 0. -/
def resetDevice : Driver Unit :=
  modify fun s =>
    let cfg := s.virtioSoundCfg
    { s with
      virtioSoundCfg :=
        { deviceFeature := cfg.deviceFeature, numQueues := cfg.numQueues
          queueSize := cfg.queueSize, queueNotifyOff := cfg.queueNotifyOff
          acceptsFeatures := cfg.acceptsFeatures }
      deviceIdx := fun _ => 0
      taken := fun _ => []
      inFlight := fun _ => [] }

/-- `device_status |= bit`. A device that does not accept the features leaves `FEATURES_OK`
clear. -/
def orStatus (bit : ℕ) : Driver Unit :=
  modifyCfg fun cfg =>
    let status := cfg.deviceStatus ||| bit
    { cfg with deviceStatus := if cfg.acceptsFeatures then status else status &&& (255 - 8) }

def allocDriverFrame : Driver ℕ := fun s =>
  let (addr, pmm) := pmmAllocFrame s.pmm
  .ok addr { s with pmm }

/-- Memory for the selected queue, which is then enabled. The frames are taken as they come. -/
def setUpQueue (q size : ℕ) : Driver Unit := do
  let desc ← allocDriverFrame
  let avail ← allocDriverFrame
  let used ← allocDriverFrame
  modify fun s =>
    { s with
      queues := Function.update s.queues q
        { descTable := desc, availRing := avail, usedRing := used, size
          lastUsedIdx := 0, nextAvailIdx := 0 } }
  modifyCfg fun cfg =>
    { cfg with
      queueDesc := Function.update cfg.queueDesc cfg.queueSelect desc
      queueAvail := Function.update cfg.queueAvail cfg.queueSelect avail
      queueUsed := Function.update cfg.queueUsed cfg.queueSelect used
      queueEnable := Function.update cfg.queueEnable cfg.queueSelect true }

/-- The control queue and the playback queue; the size of the second one is not checked. -/
def setUpQueues : Driver Unit := do
  modifyCfg fun cfg => { cfg with queueSelect := 0 }
  let cfg := (← get).virtioSoundCfg
  let q0Size := cfg.queueSize cfg.queueSelect
  if q0Size = 0 then
    return ()
  else
    setUpQueue 0 q0Size
    modifyCfg fun cfg => { cfg with queueSelect := 2 }
    let cfg := (← get).virtioSoundCfg
    let q2Size := cfg.queueSize cfg.queueSelect
    setUpQueue 2 q2Size
    orStatus virtioStatusDriverOk

/-- `virtio_sound_init`. The page of `dma_buffer` is mapped to itself already; that caching is
turned off for it changes nothing here. -/
def virtioSoundInit (notifyBase multiplier : ℕ) : Driver Unit := do
  modify fun s => { s with notifyBaseAddr := notifyBase, notifyOffMultiplier := multiplier }
  resetDevice
  orStatus virtioStatusAcknowledge
  orStatus virtioStatusDriver
  modifyCfg fun cfg => { cfg with deviceFeatureSelect := 1 }
  let cfg := (← get).virtioSoundCfg
  let featuresHigh := cfg.deviceFeature cfg.deviceFeatureSelect
  if featuresHigh % 2 = 1 then
    modifyCfg fun cfg =>
      { cfg with driverFeatureSelect := 1, driverFeature := Function.update cfg.driverFeature 1 1 }
    orStatus virtioStatusFeaturesOk
    if (← get).virtioSoundCfg.deviceStatus &&& virtioStatusFeaturesOk = 0 then
      orStatus virtioStatusFailed
    else
      setUpQueues
  else
    modifyCfg fun cfg =>
      { cfg with driverFeatureSelect := 0, driverFeature := Function.update cfg.driverFeature 0 0 }
    setUpQueues

/-! ## `virtio_sound_beep` -/

end MyOS
