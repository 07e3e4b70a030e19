import StakeRegistry.Document.Chain
import StakeRegistry.Rewards.MinerTx

/-!
# Rewards as documents
-/

set_option autoImplicit false

namespace StakeRegistry

instance : ToDocument Share := ⟨fun s => toDocument (s.address, s.portions)⟩

instance : OfDocument RewardParts := ⟨fun d => return ⟨← d.nth 0, ← d.nth 1, ← d.nth 2⟩⟩

instance : OfDocument BatchPayment := ⟨fun d => return ⟨← d.nth 0, ← d.nth 1⟩⟩

instance : OfDocument BlockReward where
  ofDocument d := return ⟨← d.get "parts", ← d.get "batched"⟩

end StakeRegistry
