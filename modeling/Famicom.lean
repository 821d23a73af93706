import Famicom.Region
import Famicom.Clock
import Famicom.Controller
import Famicom.Cartridge.Mirroring
import Famicom.Cartridge.Nrom
import Famicom.Processor.Tick
import Famicom.Sound.Basic
import Famicom.Picture.Raster
import Famicom.Picture.Register
import Famicom.Console.Basic
import Famicom.Settings.Document
import Famicom.Proofs.Processor.Semantics
import Famicom.Proofs.Processor.Timing
import Famicom.Proofs.Processor.InterruptSequence
import Famicom.Proofs.Processor.Turns
import Famicom.Proofs.Processor.Snapshot
import Famicom.Proofs.Picture.BackgroundFrame
import Famicom.Proofs.Picture.Composite
import Famicom.Proofs.Picture.RegionSwitch
import Famicom.Proofs.Picture.VblankStart
import Famicom.Proofs.Picture.Representation
import Famicom.Proofs.Mixer.Overflow
import Famicom.Proofs.Mixer.Reset
import Famicom.Proofs.Resampler.Framing
import Famicom.Proofs.Resampler.Horizon
import Famicom.Proofs.Resampler.ClocksNeeded
import Famicom.Proofs.Clock.Abort
import Famicom.Proofs.Sound.FrameEnd
import Famicom.Proofs.Sound.StartDelay
import Famicom.Proofs.Sound.SampleStream
import Famicom.Proofs.Console.PowerOn
import Famicom.Proofs.Console.SampleFetch
import Famicom.Proofs.Console.OneRegion
import Famicom.Proofs.Console.AudioIndependence
import Famicom.Proofs.Sound.DmcFetch
import Famicom.Proofs.Sound.LevelBalance
import Famicom.Proofs.Picture.Geometry
import Famicom.Proofs.Picture.NinthSprite
import Famicom.Proofs.Picture.PatternFetch
import Famicom.Proofs.Picture.WarmUp
import Famicom.Proofs.Processor.RoundTrip
import Famicom.Proofs.Mixer.Replay
import Famicom.Proofs.Mixer.Draining
import Famicom.Proofs.Mixer.Refusal
import Famicom.Proofs.Sound.FrameSpacing
import Famicom.Proofs.Sound.Silence
import Famicom.Proofs.Sound.Splitting
import Famicom.Proofs.Sound.FrameRuns
import Famicom.Proofs.Sound.RegionRates
import Famicom.Proofs.Console.SpriteCopy
import Famicom.Proofs.Processor.Remaining
import Famicom.Proofs.Sound.Stalls
import Famicom.Proofs.Console.Settling
import Famicom.Proofs.Resampler.Decay
import Famicom.Proofs.Processor.MultiByte
import Famicom.Proofs.Picture.DataPort
import Famicom.Proofs.Controller.SerialLine
import Famicom.Proofs.Resampler.InBounds
import Famicom.Proofs.Settings.RoundTrip
