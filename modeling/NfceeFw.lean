import NfceeFw.Reasoning.Memory
import NfceeFw.Reasoning.Program
import NfceeFw.Reasoning.Insertion
import NfceeFw.Reasoning.Layers
import NfceeFw.Reasoning.Machine
import NfceeFw.Reasoning.Transducer
import NfceeFw.Reasoning.ShiftRegister
import NfceeFw.Reasoning.Fields
import NfceeFw.Reasoning.Text
import NfceeFw.Nfc.Driver
import NfceeFw.Nfc.Crca
import NfceeFw.Nfc.Pcb
import NfceeFw.Nfc.Transceive
import NfceeFw.Nfc.Bounds
import NfceeFw.Nfc.Picc
import NfceeFw.Nfc.Session
import NfceeFw.Nfc.Reliable
import NfceeFw.Nfc.RuleB
import NfceeFw.Nfc.Open
import NfceeFw.Nfc.Cascade
import NfceeFw.Nfc.FrameCheck
import NfceeFw.Nfc.Activation
import NfceeFw.Nfc.Anticollision
import NfceeFw.Nfc.Parameters
import NfceeFw.Nfc.Inf
import NfceeFw.Nfc.Retransmit
import NfceeFw.Nfc.Waiting
import NfceeFw.Nfc.Tag
import NfceeFw.Nfc.Selection
import NfceeFw.Nfc.Contact
import NfceeFw.Trf797x.Lld
import NfceeFw.Trf797x.Initiator
import NfceeFw.Trf797x.OneLoad
import NfceeFw.Trf797x.FirstLoad
import NfceeFw.Trf797x.ContinuousTransmit
import NfceeFw.Trf797x.Receive
import NfceeFw.Trf797x.Completion
import NfceeFw.Trf797x.Progress
import NfceeFw.Trf797x.Stop
import NfceeFw.Trf797x.Framing
import NfceeFw.Trf797x.Integrity
import NfceeFw.Trf797x.Lifecycle
import NfceeFw.Trf797x.Visits
import NfceeFw.App.NfcThread
import NfceeFw.Trf797x.Bus
import NfceeFw.Gpio.Lld
import NfceeFw.Gpio.PortMode
import NfceeFw.Gpio.Stores
import NfceeFw.Gpio.Board
import NfceeFw.Trf797x.Exchange
import NfceeFw.Trf797x.Refinement
import NfceeFw.Trf797x.Sessions
import NfceeFw.Trf797x.ChipVisits
import NfceeFw.Trf797x.ChipRecovery
