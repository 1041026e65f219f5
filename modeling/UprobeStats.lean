import UprobeStats.BpfRingbuf
import UprobeStats.MapLock
import UprobeStats.RingClients
import UprobeStats.Main
import UprobeStats.Cxx.Guardrail
import UprobeStats.Cxx.ConfigResolver
import UprobeStats.Cxx.Main
import UprobeStats.Cxx.Poll
import UprobeStats.Cxx.BpfMap
import UprobeStats.BpfLoad.KernelUtils
import UprobeStats.BpfLoad.Platform
import UprobeStats.BpfLoad.Elf
import UprobeStats.BpfLoad.Loader
import UprobeStats.BpfLoad.Boot
import UprobeStats.BitmapAllocation
import UprobeStats.BitmapHistory
import UprobeStats.BitmapTracking
import UprobeStats.BitmapPrograms
import UprobeStats.DisruptiveApp
import UprobeStats.GenericInstrumentation
import UprobeStats.PerfEvents
import UprobeStats.ProcessManagement
import UprobeStats.Registry
import UprobeStats.Theorems.RingHeader
import UprobeStats.Theorems.RingInv
import UprobeStats.Theorems.RingFifo
import UprobeStats.Theorems.MapLock
import UprobeStats.Theorems.RingClients
import UprobeStats.Theorems.PollLoop
import UprobeStats.Theorems.BitmapHandler
import UprobeStats.Theorems.BitmapTotal
import UprobeStats.Theorems.BitmapPeak
import UprobeStats.Theorems.BitmapAccounting
import UprobeStats.Theorems.BitmapTracking
import UprobeStats.Theorems.BitmapReports
import UprobeStats.Theorems.BitmapRun
import UprobeStats.Theorems.EventContent
import UprobeStats.Theorems.CallArguments
import UprobeStats.Theorems.Ports
import UprobeStats.Theorems.Registry
import UprobeStats.Theorems.ArgumentRegisters
import UprobeStats.Theorems.ComponentNames
import UprobeStats.Theorems.Requests
import UprobeStats.Theorems.GuardrailSound
import UprobeStats.Theorems.GuardrailPort
import UprobeStats.Theorems.GuardrailModes
import UprobeStats.Theorems.CxxGates
import UprobeStats.Theorems.BpfLoadReading
import UprobeStats.Theorems.LoadProg
import UprobeStats.Theorems.ElfObjects
import UprobeStats.Theorems.CodeSections
import UprobeStats.Theorems.WellFormedObjects
import UprobeStats.Theorems.SectionIndexes
import UprobeStats.Theorems.PinPaths
import UprobeStats.Theorems.CreateMaps
import UprobeStats.Theorems.KernelVersion
import UprobeStats.Theorems.MapPins
import UprobeStats.Theorems.BootPins
import UprobeStats.Theorems.Repeats
import UprobeStats.Theorems.DefinitionLabels
import UprobeStats.Theorems.MapRelocation
import UprobeStats.Theorems.HalfRelocation
import UprobeStats.Theorems.Reload
import UprobeStats.Theorems.Boot
import UprobeStats.Theorems.TargetProcess
import UprobeStats.Theorems.AppStart
import UprobeStats.Theorems.StartPrograms
import UprobeStats.Theorems.PerfEvents
import UprobeStats.Theorems.PollTimeouts
import UprobeStats.Theorems.CxxPoll
import UprobeStats.Theorems.OatdumpFiles
import UprobeStats.Theorems.FreshStart
import UprobeStats.Theorems.TaskIsolation
import UprobeStats.Theorems.RunPhases
import UprobeStats.Theorems.MainPort
import UprobeStats.Theorems.BinderMap
import UprobeStats.Theorems.BinderFilter
import UprobeStats.Theorems.BinderCleanup
import UprobeStats.Theorems.BinderKey
import UprobeStats.Theorems.BinderRuns
import UprobeStats.Theorems.BinderArmed
import UprobeStats.Theorems.BinderReports
import UprobeStats.Theorems.DisruptionReports
import UprobeStats.Theorems.CallReports
import UprobeStats.Theorems.Reports
import UprobeStats.Theorems.BinderAccessor
import UprobeStats.Theorems.BpfMapIteration
import UprobeStats.Theorems.BpfMapForeach
