import Metrology.Family.Basic

/-!
# Metrology.Family.Builtin -- the families that are always there

Eight families. In each the multiplier of a unit is its size in standard units, and the SI units,
the litre, the electronvolt and the tonne of TNT take prefixes.
-/

namespace Metrology

namespace Family

namespace Builtin

/-- Units of mass. -/
def mass : Family :=
  make "mass" "g" ""
    (.ofList [
      ("g", 1.0),
      ("tonne", 1000000.0),
      ("oz", 28.3495),
      ("troy_oz", 3.110348e1),
      ("lb", 453.592),
      ("short_ton", 907185.0),
      ("long_ton", 1016000.0),
      ("gr", 0.0647989),
      ("stone", 6350.29),
      ("carat", 0.2),
      ("solar_mass", 2e33),
      ("earth_mass", 5.9722e27)])
    (.ofList [
      ("mcg", "ug"),
      ("gram", "g"),
      ("gm", "g"),
      ("ton", "short_ton"),
      ("short ton", "short_ton"),
      ("metric tonne", "tonne"),
      ("metric ton", "tonne"),
      ("ounce", "oz"),
      ("pound", "lb"),
      ("lbs", "lb"),
      ("st", "stone"),
      ("long ton", "long_ton"),
      ("weight ton", "long_ton"),
      ("imperial ton", "long_ton"),
      ("imp_ton", "long_ton"),
      ("ct", "carat"),
      ("sm", "solar_mass"),
      ("suns", "solar_mass"),
      ("em", "earth_mass"),
      ("earths", "earth_mass")])
    ["g"]

/-- Units of length. -/
def distance : Family :=
  make "distance" "m" ""
    (.ofList [
      ("chain", 20.1168),
      ("chain_benoit", 20.116782),
      ("chain_sears", 20.1167645),
      ("british_chain_benoit", 20.1167824944),
      ("british_chain_sears", 20.1167651216),
      ("british_chain_sears_truncated", 20.116756),
      ("british_ft", 0.304799471539),
      ("british_yd", 0.914398414616),
      ("clarke_ft", 0.3047972654),
      ("clarke_link", 0.201166195164),
      ("fathom", 1.8288),
      ("ft", 0.3048),
      ("german_m", 1.0000135965),
      ("gold_coast_ft", 0.304799710181508),
      ("indian_yd", 0.914398530744),
      ("inch", 0.0254),
      ("link", 0.201168),
      ("link_benoit", 0.20116782),
      ("link_sears", 0.20116765),
      ("m", 1.0),
      ("mi", 1609.344),
      ("naut_mi", 1852.0),
      ("naut_mi_uk", 1853.184),
      ("rod", 5.029210),
      ("sears_yd", 0.91439841),
      ("survey_ft", 0.304800609601),
      ("yd", 0.9144),
      ("ly", 9.46073e15),
      ("pc", 3.085678e16),
      ("lm", 1.799e10),
      ("ls", 2.998e8),
      ("ang", 1e-10),
      ("au", 1.495979e11),
      ("fermi", 1e-15)])
    (.ofList [
      ("foot", "ft"),
      ("inches", "inch"),
      ("in", "inch"),
      ("meter", "m"),
      ("metre", "m"),
      ("mile", "mi"),
      ("yard", "yd"),
      ("british chain", "british_chain_sears_truncated"),
      ("british foot", "british_ft"),
      ("british yard", "british_yd"),
      ("clarke's foot", "clarke_ft"),
      ("clarke's link", "clarke_link"),
      ("chain (benoit)", "chain_benoit"),
      ("chain (sears)", "chain_sears"),
      ("foot (international)", "ft"),
      ("german legal metre", "german_m"),
      ("gold coast foot", "gold_coast_ft"),
      ("link (benoit)", "link_benoit"),
      ("link (sears)", "link_sears"),
      ("nautical mile", "naut_mi"),
      ("nautical mile (uk)", "naut_mi_uk"),
      ("us survey foot", "survey_ft"),
      ("u.s. foot", "survey_ft"),
      ("indian yard", "indian_yd"),
      ("sears yard", "sears_yd"),
      ("light year", "ly"),
      ("light-year", "ly"),
      ("parsec", "pc"),
      ("light minute", "lm"),
      ("light-minute", "lm"),
      ("light second", "ls"),
      ("light-second", "ls"),
      ("angstrom", "ang")])
    ["m"]

/-- Units of time. -/
def time : Family :=
  make "time" "s" ""
    (.ofList [
      ("s", 1.0),
      ("min", 60.0),
      ("hr", 3600.0),
      ("day", 86400.0),
      ("week", 604800.0),
      ("yr", 31536000.0)])
    (.ofList [
      ("second", "s"),
      ("sec", "s"),
      ("minute", "min"),
      ("hour", "hr"),
      ("h", "hr"),
      ("days", "day"),
      ("weeks", "week"),
      ("year", "yr")])
    ["s"]

/-- Units of electric current. -/
def current : Family :=
  make "current" "A" ""
    (.ofList [
      ("A", 1.0)])
    (.ofList [
      ("amp", "A"),
      ("ampere", "A")])
    ["A"]

/-- Units of amount of substance. -/
def amount : Family :=
  make "amount" "mol" ""
    (.ofList [
      ("mol", 1.0)])
    (.ofList [
      ("mole", "mol")])
    ["mol"]

/-- Units of luminous intensity. -/
def luminousIntensity : Family :=
  make "luminous_intensity" "cd" ""
    (.ofList [
      ("cd", 1.0),
      ("cp", 0.981),
      ("hk", 0.903)])
    (.ofList [
      ("candela", "cd"),
      ("candlepower", "cp"),
      ("hefnerkerze", "hk")])
    ["cd"]

/-- Units of volume, in cubic metres. -/
def volume : Family :=
  make "volume" "cubic_meter" "m^3"
    (.ofList [
      ("us_g", 0.00378541),
      ("us_qt", 0.000946353),
      ("us_pint", 0.000473176),
      ("us_cup", 0.000236588),
      ("us_oz", 2.9574e-5),
      ("us_tbsp", 1.4787e-5),
      ("us_tsp", 4.9289e-6),
      ("cubic_millimeter", 0.000000001),
      ("cubic_centimeter", 0.000001),
      ("cubic_decimeter", 0.001),
      ("cubic_meter", 1.0),
      ("l", 0.001),
      ("cubic_foot", 0.0283168),
      ("cubic_inch", 1.6387e-5),
      ("imperial_g", 0.00454609),
      ("imperial_qt", 0.00113652),
      ("imperial_pint", 0.000568261),
      ("imperial_oz", 2.8413e-5),
      ("imperial_tbsp", 1.7758e-5),
      ("imperial_tsp", 5.9194e-6),
      ("tonnage", 2.83168)])
    (.ofList [
      ("gallon", "us_g"),
      ("gal", "us_g"),
      ("quart", "us_qt"),
      ("qt", "us_qt"),
      ("cup", "us_cup"),
      ("oz", "us_oz"),
      ("tbsp", "us_tbsp"),
      ("tsp", "us_tsp"),
      ("mm3", "cubic_millimeter"),
      ("cm3", "cubic_centimeter"),
      ("ml", "cubic_centimeter"),
      ("dm3", "cubic_decimeter"),
      ("m3", "cubic_meter"),
      ("liter", "l"),
      ("litre", "l"),
      ("ft3", "cubic_foot"),
      ("in3", "cubic_inch"),
      ("imp_g", "imperial_g"),
      ("imp_qt", "imperial_qt"),
      ("imp_pint", "imperial_pint"),
      ("imp_oz", "imperial_oz"),
      ("imp_tbsp", "imperial_tbsp"),
      ("imp_tsp", "imperial_tsp"),
      ("tnge", "tonnage")])
    ["l"]

/-- Units of energy, in joules. -/
def energy : Family :=
  make "energy" "J" "kg*m^2/s^2"
    (.ofList [
      ("J", 1.0),
      ("foot_pound", 1.355818),
      ("foot_poundal", 0.0421401100938048),
      ("watt_hour", 3600.0),
      ("watt_min", 60.0),
      ("eV", 1.6021766208e-19),
      ("hartree", 4.359744650e-18),
      ("erg", 1.0e-7),
      ("hertz", 6.62607015e-34),
      ("m3_ng", 38637896.84),
      ("cm3_ng", 38.63753164),
      ("ft3_ng", 1094093.072),
      ("in3_ng", 633.155713),
      ("tonne_tnt", 4.184e9),
      ("therm_ec", 1.05506e8),
      ("therm_us", 1.054804e8),
      ("btu", 1.05506e3),
      ("btu_it", 1.055055853e3),
      ("btu_iso", 1.05506e3),
      ("btu_th", 1.054350e3),
      ("btu_mean", 1.05587e3),
      ("btu_39", 1.05967e3),
      ("btu_59", 1.05480e3),
      ("btu_60", 1.05468e3),
      ("cal_th", 4.184),
      ("cal_it", 4.1868),
      ("cal_mean", 4.19002),
      ("cal_15", 4.18580),
      ("cal_20", 4.18190),
      ("cal_nutrition", 4184.0)])
    (.ofList [
      ("joule", "J"),
      ("j", "J"),
      ("ftlb", "foot_pound"),
      ("ft-lb", "foot_pound"),
      ("ft_lb", "foot_pound"),
      ("ftlbs", "foot_pound"),
      ("ft-lbs", "foot_pound"),
      ("ft_lbs", "foot_pound"),
      ("ftlbf", "foot_pound"),
      ("ft-lbf", "foot_pound"),
      ("ft_lbf", "foot_pound"),
      ("ft_pdl", "foot_poundal"),
      ("ft-pdl", "foot_poundal"),
      ("ftpdl", "foot_poundal"),
      ("watt_hr", "watt_hour"),
      ("watt_h", "watt_hour"),
      ("watt_minute", "watt_min"),
      ("watt_sec", "J"),
      ("watt_s", "J"),
      ("ev", "eV"),
      ("electronvolt", "eV"),
      ("ha", "hartree"),
      ("hz", "hertz"),
      ("ton_tnt", "tonne_tnt"),
      ("tontnt", "tonne_tnt"),
      ("tons_tnt", "tonne_tnt"),
      ("tonstnt", "tonne_tnt"),
      ("tnt", "tonne_tnt"),
      ("british_thermal_unit", "btu"),
      ("BTU", "btu"),
      ("cal", "cal_th"),
      ("calorie", "cal_th"),
      ("Calorie", "cal_nutrition"),
      ("Cal", "cal_nutrition")])
    ["J", "eV", "tonne_tnt"]

end Builtin

/-- The built-in families. -/
def builtin : List Family :=
  [Builtin.mass, Builtin.distance, Builtin.time, Builtin.current,
    Builtin.amount, Builtin.luminousIntensity, Builtin.volume, Builtin.energy]

end Family

end Metrology
