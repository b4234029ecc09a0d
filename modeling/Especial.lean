import Especial.Lib.BitField
import Especial.Lib.Drive
import Especial.Lib.Forest
import Especial.Lib.Framing
import Especial.Lib.Intervals
import Especial.Lib.Loop
import Especial.Lib.Run
import Especial.Lib.Mirror
import Especial.Lib.Mutex
import Especial.Lib.Network
import Especial.Lib.Pointwise
import Especial.Lib.Returns
import Especial.Lib.Settles
import Especial.Lib.Linked
import Especial.Lib.Zipper
import Especial.Lib.Ticks
import Especial.Lib.Wakeup
import Especial.Qemu.Basic
import Especial.Qemu.Simpleq
import Especial.Stm32.Basic
import Especial.Clktree.Basic
import Especial.Clktree.Graph
import Especial.Clktree.Recalc
import Especial.Clktree.Refinement
import Especial.Clktree.Calls
import Especial.Clktree.Notify
import Especial.Clktree.Trace
import Especial.Clktree.Changes
import Especial.Clktree.Told
import Especial.Clktree.Interface
import Especial.Clktree.Ranges
import Especial.Rcc.Basic
import Especial.Rcc.Config
import Especial.Rcc.Writes
import Especial.Rcc.ClocksFreq
import Especial.Rcc.PeriphClocks
import Especial.Rcc.History
import Especial.Rcc.Settings
import Especial.Rcc.Notify
import Especial.Rcc.Ranges
import Especial.Rcc.Warnings
import Especial.Rcc.SystemInit
import Especial.Exti.Basic
import Especial.Exti.Lines
import Especial.Exti.Writes
import Especial.Exti.Pending
import Especial.Exti.Software
import Especial.Exti.Words
import Especial.Gpio.Basic
import Especial.Gpio.Pins
import Especial.Gpio.Levels
import Especial.Gpio.Seen
import Especial.Afio.Basic
import Especial.Afio.Routing
import Especial.Afio.Delivery
import Especial.Afio.Resets
import Especial.Afio.Registers
import Especial.Uart.Basic
import Especial.Uart.Effects
import Especial.Uart.Registers
import Especial.Uart.Baud
import Especial.Uart.Divider
import Especial.Uart.Transmit
import Especial.Uart.Interrupt
import Especial.Uart.SendByte
import Especial.Uart.Println
import Especial.Uart.Receive
import Especial.Soc.Basic
import Especial.Soc.Derived
import Especial.Soc.Bounds
import Especial.Soc.Mapping
import Especial.Soc.Resets
import Especial.Emul.Basic
import Especial.Emul.Effects
import Especial.Emul.Wakeup
import Especial.Emul.Queue
import Especial.Emul.Handshake
import Especial.Emul.Acknowledge
import Especial.Emul.Events
import Especial.Emul.Buttons
import Especial.Emul.Conservation
import Especial.Emul.Board
import Especial.Emul.Frames
import Especial.Emul.Linked
import Especial.Emul.Records
import Especial.Hal.StdPeriph
import Especial.Hal.Firmware
import Especial.Hal.Effects
import Especial.Hal.Registration
import Especial.Hal.Watched
import Especial.Hal.CachedInput
import Especial.Hal.DigitalOutput
import Especial.Hal.Handlers
import Especial.Hal.OutputLevels
import Especial.Hal.GpioInit
import Especial.Hal.OutputFrames
import Especial.Hal.Mcu
import Especial.Hal.Ownership
import Especial.Hal.Preemption
import Especial.Hal.Served
import Especial.Hal.UsartInit
import Especial.Hal.Rs232
import Especial.Utils.Delay
import Especial.Utils.Time
import Especial.Demo.PulseInput
import Especial.Demo.HelloBlink
import Especial.Rtos.List
import Especial.Lib.Agenda
import Especial.Rtos.Calls
import Especial.Rtos.Runs
import Especial.Rtos.Ticks
import Especial.Rtos.Unprotected
