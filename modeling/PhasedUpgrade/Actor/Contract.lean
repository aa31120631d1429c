import PhasedUpgrade.Collections.NameSet
import PhasedUpgrade.Message.Error

/-!
# Contracts of actors

A contract declares which message types an actor consumes and produces, and by its tags where it
takes part. The bus holds each actor to it.
-/

namespace PhasedUpgrade

structure Contract where
  name : String
  description : String
  consumes : NameSet
  produces : NameSet
  tags : NameSet
  experimental : Bool
deriving DecidableEq

namespace Contract

/-- Whether some type that one actor produces is consumed by another. -/
def feeds (producer consumer : Contract) : Bool :=
  producer.produces.meets consumer.consumes

def hasTag (contract : Contract) (tag : String) : Bool :=
  contract.tags.contains tag

/-- The declared types, consumed ones first. -/
def declared (contract : Contract) : List String :=
  contract.consumes.names ++ contract.produces.names

end Contract

inductive ContractViolation where
  | undeclaredProduce (actor typeName : String)
  | undeclaredConsume (actor typeName : String)
  | invalidMessage (actor : String) (cause : MessageError)
deriving DecidableEq

namespace ContractViolation

def kind : ContractViolation → String
  | undeclaredProduce _ _ => "UndeclaredProduce"
  | undeclaredConsume _ _ => "UndeclaredConsume"
  | invalidMessage _ _ => "InvalidMessage"

def message : ContractViolation → String
  | undeclaredProduce actor typeName =>
      "actor '" ++ actor ++ "' may not produce '" ++ typeName ++ "'"
  | undeclaredConsume actor typeName =>
      "actor '" ++ actor ++ "' may not consume '" ++ typeName ++ "'"
  | invalidMessage actor cause =>
      "actor '" ++ actor ++ "' exchanged an invalid message: " ++ cause.message

end ContractViolation

end PhasedUpgrade
