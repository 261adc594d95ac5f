import TwinCopy.Gate.IngressWord
import TwinCopy.Gate.Versioned
import TwinCopy.Gate.VersionedWord
import TwinCopy.Session

/-!
# The four variants

An instance comes in four variants. Two have a gate of two read-indicators of any kind and differ
in how writers share the work; two have a gate in one word and need neither read-indicators nor
slots.
-/

namespace TwinCopy

/-- How readers are counted and how writers share the work. -/
inductive Variant where
  /-- read-indicators, exclusive writers -/
  | classic
  /-- read-indicators, combining writers -/
  | combining
  /-- a word with versions -/
  | versionedWord
  /-- a word without versions -/
  | ingressWord
  deriving DecidableEq, Repr

/-- The variant that scripts call by this name. -/
def Variant.ofName? : String → Option Variant
  | "classic" => some classic
  | "flat" => some combining
  | "al" => some versionedWord
  | "alnv" => some ingressWord
  | _ => none

/-- How an instance is built: from one value or from none with the standard configuration, or
with a configuration from one value or from two. -/
inductive Construction where
  | withConfig
  | standard
  | ofPair
  | ofDefault
  deriving DecidableEq, Repr

/-- The construction that scripts call by this name. -/
def Construction.ofName? : String → Option Construction
  | "with_config" => some withConfig
  | "new" => some standard
  | "from_pair" => some ofPair
  | "default" => some ofDefault
  | _ => none

namespace Instance

variable {α ρ : Type}

/-- Exclusive writers and a gate of two read-indicators. -/
def classic (kind : IndicatorKind) (c : Config) (copies : Copies α) :
    Instance Versioned Version α ρ :=
  fresh .exclusive copies (.ofConfig kind c) (.ofCapacity 0 (kind.slotCapacity c)) 1 c.wait

/-- Combining writers and a gate of two read-indicators. There is a cell for each slot, so the
slots are bounded whatever the read-indicators need. -/
def combining (kind : IndicatorKind) (c : Config) (copies : Copies α) :
    Instance Versioned Version α ρ :=
  fresh .combining copies (.ofConfig kind c) (.bounded 0 c.maxThreads) c.maxThreads c.wait

/-- A gate in one word, with versions. -/
def versionedWord (c : Config) (copies : Copies α) : Instance VersionedWord Version α ρ :=
  fresh .exclusive copies .fresh (.unbounded 0) 1 c.wait

/-- A gate in one word, without versions. -/
def ingressWord (c : Config) (copies : Copies α) :
    Instance IngressWord IngressWord.Backlog α ρ :=
  fresh .exclusive copies .fresh (.unbounded 0) 1 c.wait

end Instance

/-- All that is needed to build an instance. -/
structure Setup (α : Type) where
  variant : Variant
  kind : IndicatorKind
  construction : Construction
  config : Config
  left : α
  right : α
  deriving Repr

namespace Setup

variable {α : Type}

/-- The configuration an instance is built with, if it accepts it. The variants with a gate in
one word build from two values without looking at the configuration. -/
def accepted (s : Setup α) : Except Error Config :=
  match s.construction, s.variant with
  | .standard, _ | .ofDefault, _ => .ok .standard
  | .ofPair, .versionedWord | .ofPair, .ingressWord => .ok s.config
  | .ofPair, _ | .withConfig, _ => s.config.validate

/-- The two copies an instance starts with. -/
def copies [Inhabited α] (s : Setup α) : Copies α :=
  match s.construction with
  | .withConfig | .standard => ⟨s.left, s.left⟩
  | .ofPair => ⟨s.left, s.right⟩
  | .ofDefault => ⟨default, default⟩

end Setup

end TwinCopy
