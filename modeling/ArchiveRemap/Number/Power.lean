/-!
Powers of numbers. Those that are built in are meant wherever a power is written, also beside
libraries that have more general ones.
-/

namespace ArchiveRemap

@[default_instance 20000]
instance (priority := high) builtInPower {Base : Type} [NatPow Base] : Pow Base Nat := instPowNat

end ArchiveRemap
