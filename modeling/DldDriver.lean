import DldDriver.Kernel.QuietWindow
import DldDriver.Kernel.Cleanup
import DldDriver.Session
import DldDriver.Firmware.Waveform
import DldDriver.System.Sequencing
import DldDriver.System.Completion
import DldDriver.Userspace.Context
import DldDriver.Userspace.Readiness
import DldDriver.Userspace.Receiver
import DldDriver.Userspace.FlashWatch
import DldDriver.Capture.Analyze
import DldDriver.Capture.Bursts
import DldDriver.Capture.Decode
import DldDriver.Capture.Soundness
import DldDriver.System.Budget
import DldDriver.Kernel.GrantAccount
import DldDriver.Kernel.Balance
import DldDriver.Userspace.FlashFrames
import DldDriver.Userspace.Opc
import DldDriver.Userspace.FailLow
import DldDriver.Capture.Chunked
import DldDriver.Tools.Scenes
import DldDriver.Tools.Blackout
import DldDriver.Userspace.ConfigBuffer
import DldDriver.Kernel.AdmissionWait
import DldDriver.Userspace.IdleWait
import DldDriver.Tools.Bundle
import DldDriver.Tools.StopDld
import DldDriver.Kernel.SpinImage
import DldDriver.Kernel.Module
import DldDriver.Tools.Prepare
import DldDriver.System.Session
