import Sankaku.Proofs.EndToEnd
import Sankaku.Proofs.WirehairMeets

namespace Sankaku
open Machine SankakuSender Erasure

section
variable {W : Wirehair} (t : Transmission W)

end

variable {P : Platform} {E : Elimination}

end Sankaku
