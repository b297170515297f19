import MarketReplay.Config
import MarketReplay.PriceTable
import MarketReplay.Run
import MarketReplay.Strategy.Catalogue

/-!
# Errors as documents

An error is shown by the name of its cause and its text. An error that wraps another has the cause
of the inner one and a text of its own.
-/

namespace MarketReplay

/-- Errors that name their cause. -/
class Failure (ε : Type) where
  cause : ε → String
  text : ε → String

instance : Failure SymbolError where
  cause
    | .emptyTicker => "EmptyTicker"
    | .invalidTicker _ => "InvalidTicker"
    | .underlyingNotEquity _ => "UnderlyingNotEquity"
    | .nonPositiveStrike _ => "NonPositiveStrike"
    | .malformed _ => "Malformed"
  text := SymbolError.message

instance : Failure ClockError where
  cause
    | .invalidRange .. => "InvalidRange"
  text := ClockError.message

instance : Failure LoadError where
  cause
    | .unreadable _ => "Io"
    | .emptyInput => "EmptyInput"
    | .missingHeader _ => "MissingHeader"
    | .badPrice .. => "ParsePrice"
    | .badTime _ => "ParseTime"
    | .badRow .. => "BadRow"
    | .localTimeOutOfRange _ => "TimeOutOfRange"
  text := LoadError.message

instance : Failure UniverseError where
  cause
    | .unknownSymbol _ => "UnknownSymbol"
    | .notDerivative _ => "NotDerivative"
    | .noMatchingContract .. => "NoMatchingContract"
  text := UniverseError.message

instance : Failure OrderError where
  cause
    | .unknownSymbol _ => "UnknownSymbol"
    | .zeroQuantity => "ZeroQuantity"
    | .insufficientFunds .. => "InsufficientFunds"
    | .invalidState .. => "InvalidState"
    | .unknownOrder _ => "UnknownOrder"
  text := OrderError.message

instance : Failure StrategyError where
  cause
    | .order e => Failure.cause e
    | .subscription e => Failure.cause e
    | .message _ => "Message"
  text := StrategyError.text

instance : Failure HostError where
  cause
    | .multiStrategyNotAllowed => "MultiStrategyNotAllowed"
    | .noStrategyRegistered => "NoStrategyRegistered"
    | .resolutionMismatch .. => "ResolutionMismatch"
  text := HostError.message

instance : Failure CatalogueError where
  cause
    | .duplicateName _ => "DuplicateName"
    | .unknownStrategy _ => "UnknownStrategy"
    | .invalidName _ => "InvalidName"
  text := CatalogueError.message

instance : Failure ConfigurationError where
  cause
    | .invalidDateRange .. => "InvalidDateRange"
    | .missingSelector => "MissingSelector"
    | .emptySelector => "EmptySelector"
    | .nonPositiveCash _ => "NonPositiveCash"
  text := ConfigurationError.message

instance : Failure RunError where
  cause
    | .configuration e => Failure.cause e
    | .host e => Failure.cause e
    | .offset _ => "OffsetOverflow"
  text := RunError.message

instance : Failure ConfigError where
  cause
    | .unreadable .. => "ReadFailed"
    | .invalidLayer _ => "InvalidYaml"
    | .invalidKeys => "YamlToJson"
    | .missingSection _ => "SectionMissing"
    | .invalidSection .. => "SectionInvalid"
    | .unusedKeys _ => "UnusedKeys"
  text := ConfigError.message

/-- The document of an error. -/
def Json.ofFailure {ε : Type} [Failure ε] (e : ε) : Json :=
  .ofFields [("error", .string (Failure.cause e)), ("message", .string (Failure.text e))]

end MarketReplay
