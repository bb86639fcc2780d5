import Tk1Bsp.Framework.Transition
import Tk1Bsp.Framework.Drain
import Tk1Bsp.Framework.LinkedList
import Tk1Bsp.Framework.RingBuffer
import Tk1Bsp.Framework.Process
import Tk1Bsp.Framework.Protocol
import Tk1Bsp.Framework.Refinement
import Tk1Bsp.Framework.ReadModifyWrite
import Tk1Bsp.Framework.ArgMin
import Tk1Bsp.Framework.ByteMemory
import Tk1Bsp.Framework.MaskedWrite
import Tk1Bsp.TimeServer.Server
import Tk1Bsp.TimeServer.TimerList
import Tk1Bsp.TimeServer.Bank
import Tk1Bsp.TimeServer.Invariant
import Tk1Bsp.TimeServer.Termination
import Tk1Bsp.TimeServer.Timeliness
import Tk1Bsp.TimeServer.Isolation
import Tk1Bsp.TimeServer.Refinement
import Tk1Bsp.TimeServer.Schedule
import Tk1Bsp.TimeServer.Connector
import Tk1Bsp.Clock.Forward
import Tk1Bsp.Clock.Scan
import Tk1Bsp.Clock.Init
import Tk1Bsp.Clock.Sharing
import Tk1Bsp.Can.Frame
import Tk1Bsp.Can.Mcp2515
import Tk1Bsp.Can.Driver
import Tk1Bsp.Can.Controller
import Tk1Bsp.Can.Irq
import Tk1Bsp.Can.System
import Tk1Bsp.Can.Effects
import Tk1Bsp.Can.Transmit
import Tk1Bsp.Can.Flags
import Tk1Bsp.Can.Lengths
import Tk1Bsp.Can.Ownership
import Tk1Bsp.Can.Receive
import Tk1Bsp.Can.Codec
import Tk1Bsp.Can.Filter
import Tk1Bsp.Can.Installation
import Tk1Bsp.Can.Queue
import Tk1Bsp.Can.Interrupt
import Tk1Bsp.Can.Bounds
import Tk1Bsp.Can.Device
import Tk1Bsp.Can.Reception
import Tk1Bsp.Can.Acceptance
import Tk1Bsp.Can.Transmitter
import Tk1Bsp.Can.Whole
import Tk1Bsp.Can.Session
import Tk1Bsp.Can.Restart
import Tk1Bsp.Can.Priority
import Tk1Bsp.Can.Order
import Tk1Bsp.Can.Acknowledge
import Tk1Bsp.Can.Refill
import Tk1Bsp.Can.Refusal
import Tk1Bsp.Can.Masks
import Tk1Bsp.Can.Clearing
import Tk1Bsp.Can.Gate
import Tk1Bsp.Can.Ranking
import Tk1Bsp.Can.BitTiming
import Tk1Bsp.Can.Settings
import Tk1Bsp.Can.Overrun
import Tk1Bsp.Can.Indices
import Tk1Bsp.Can.Loopback
import Tk1Bsp.Spi.Server
import Tk1Bsp.Spi.System
import Tk1Bsp.Spi.Places
import Tk1Bsp.Spi.Commands
import Tk1Bsp.Spi.Invariant
import Tk1Bsp.Spi.Atomicity
import Tk1Bsp.Spi.Progress
import Tk1Bsp.Spi.Settings
import Tk1Bsp.Uart.Forward
import Tk1Bsp.Uart.Device
import Tk1Bsp.Uart.System
import Tk1Bsp.Uart.Completion
import Tk1Bsp.Uart.StateMutex
import Tk1Bsp.Uart.Progress
