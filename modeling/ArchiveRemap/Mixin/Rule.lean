import ArchiveRemap.Archive.Basic

/-!
Which annotations matter and what they ask for. A rule belongs to a site and an annotation
type; it applies where its condition accepts the annotation.
-/

namespace ArchiveRemap.Mixin

/-- Where an annotation stands. -/
inductive Site where
  | onClass
  | onMethod
  | onField
  deriving DecidableEq, Repr

/-- What an annotation asks for. -/
inductive Handler where
  | mixinTargets
  | injector
  | methodTarget
  | accessor
  | invoker
  | shadow
  | overwrite
  deriving DecidableEq, Repr

structure Rule where
  name : String
  handler : Handler
  accepts : AnnotationNode → Bool

/-- Rules by site and annotation type. -/
structure Registry where
  rules : Keyed (Site × String) Rule

namespace Registry

def empty : Registry := ⟨[]⟩

def size (registry : Registry) : Nat := registry.rules.length

/-- Add a rule, in place of the one of the same site and type. -/
def register (registry : Registry) (site : Site) (desc : String) (rule : Rule) : Registry :=
  ⟨registry.rules.put (site, desc) rule⟩

def registerAll (registry : Registry) (rules : List (Site × String × String × Handler)) :
    Registry :=
  rules.foldl (fun done (site, desc, name, handler) =>
    done.register site desc ⟨name, handler, fun _ => true⟩) registry

def lookup? (registry : Registry) (site : Site) (note : AnnotationNode) : Option Rule :=
  (registry.rules.get? (site, note.desc)).filter fun rule => rule.accepts note

def mixinRules : List (Site × String × String × Handler) :=
  [(.onClass, "Lorg/spongepowered/asm/mixin/Mixin;", "@Mixin", .mixinTargets),
   (.onField, "Lorg/spongepowered/asm/mixin/Shadow;", "@Shadow", .shadow),
   (.onMethod, "Lorg/spongepowered/asm/mixin/Shadow;", "@Shadow", .shadow),
   (.onMethod, "Lorg/spongepowered/asm/mixin/Overwrite;", "@Overwrite", .overwrite),
   (.onMethod, "Lorg/spongepowered/asm/mixin/gen/Accessor;", "@Accessor", .accessor),
   (.onMethod, "Lorg/spongepowered/asm/mixin/gen/Invoker;", "@Invoker", .invoker),
   (.onMethod, "Lorg/spongepowered/asm/mixin/injection/Inject;", "@Inject", .injector),
   (.onMethod, "Lorg/spongepowered/asm/mixin/injection/Redirect;", "@Redirect", .injector),
   (.onMethod, "Lorg/spongepowered/asm/mixin/injection/ModifyArg;", "@ModifyArg", .injector),
   (.onMethod, "Lorg/spongepowered/asm/mixin/injection/ModifyArgs;", "@ModifyArgs", .injector),
   (.onMethod, "Lorg/spongepowered/asm/mixin/injection/ModifyVariable;", "@ModifyVariable",
    .injector),
   (.onMethod, "Lorg/spongepowered/asm/mixin/injection/ModifyConstant;", "@ModifyConstant",
    .injector)]

def extraRules : List (Site × String × String × Handler) :=
  [(.onMethod, "Lcom/llamalad7/mixinextras/injector/wrapoperation/WrapOperation;",
    "@WrapOperation", .injector),
   (.onMethod, "Lcom/llamalad7/mixinextras/injector/WrapWithCondition;",
    "@WrapWithCondition", .injector),
   (.onMethod, "Lcom/llamalad7/mixinextras/injector/ModifyExpressionValue;",
    "@ModifyExpressionValue", .injector),
   (.onMethod, "Lcom/llamalad7/mixinextras/injector/ModifyReturnValue;",
    "@ModifyReturnValue", .injector),
   (.onMethod, "Lcom/llamalad7/mixinextras/injector/ModifyReceiver;", "@ModifyReceiver",
    .injector),
   (.onMethod, "Lcom/llamalad7/mixinextras/injector/wrapmethod/WrapMethod;", "@WrapMethod",
    .methodTarget)]

/-- The rules of Mixin, with those of its extra injectors if they are wanted. -/
def standard (extras : Bool) : Registry :=
  let base := empty.registerAll mixinRules
  if extras then base.registerAll extraRules else base

end Registry

/-- Settings of the work on mixins. -/
structure Options where
  enabled : Bool
  implicitWildcards : Bool
  defaultRefmap : String
  extras : Bool
  deriving DecidableEq, Repr

def Options.standard : Options := ⟨true, false, "unknown-refmap.json", true⟩

end ArchiveRemap.Mixin
