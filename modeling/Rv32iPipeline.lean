import Rv32iPipeline.Proofs.Restart
import Rv32iPipeline.Proofs.Trap
import Rv32iPipeline.Proofs.SquashedSlots
import Rv32iPipeline.Proofs.ResetButton
import Rv32iPipeline.Proofs.TwoClock
import Rv32iPipeline.Proofs.ZeroRegister
import Rv32iPipeline.Proofs.CurrentOperands
import Rv32iPipeline.Proofs.NameDecoder
import Rv32iPipeline.Proofs.MemoryMap
import Rv32iPipeline.Proofs.BusReads
import Rv32iPipeline.Proofs.Legal
import Rv32iPipeline.Proofs.Parking
import Rv32iPipeline.Proofs.BoardDisplay
import Rv32iPipeline.Proofs.ButtonRestart
import Rv32iPipeline.Proofs.IoPoll
import Rv32iPipeline.Proofs.Verdict
