import Reskin.Catalog

/-!
# The items of the unmodified game
-/

namespace Reskin.Catalog

/-- The ids of all items of the unmodified game, without their namespace. -/
def vanillaItems : List String :=
  ["wooden_sword", "wooden_shovel", "wooden_pickaxe", "wooden_axe", "wooden_hoe", "stone_sword",
    "stone_shovel", "stone_pickaxe", "stone_axe", "stone_hoe", "iron_sword", "iron_shovel",
    "iron_pickaxe", "iron_axe", "iron_hoe", "golden_sword", "golden_shovel", "golden_pickaxe",
    "golden_axe", "golden_hoe", "diamond_sword", "diamond_shovel", "diamond_pickaxe", "diamond_axe",
    "diamond_hoe", "netherite_sword", "netherite_shovel", "netherite_pickaxe", "netherite_axe",
    "netherite_hoe", "leather_helmet", "leather_chestplate", "leather_leggings", "leather_boots",
    "chainmail_helmet", "chainmail_chestplate", "chainmail_leggings", "chainmail_boots",
    "iron_helmet", "iron_chestplate", "iron_leggings", "iron_boots", "golden_helmet",
    "golden_chestplate", "golden_leggings", "golden_boots", "diamond_helmet", "diamond_chestplate",
    "diamond_leggings", "diamond_boots", "netherite_helmet", "netherite_chestplate",
    "netherite_leggings", "netherite_boots", "turtle_helmet", "elytra", "bow", "crossbow",
    "trident", "shield", "fishing_rod", "carrot_on_a_stick", "warped_fungus_on_a_stick",
    "flint_and_steel", "shears", "spyglass", "brush", "compass", "recovery_compass", "clock", "map",
    "filled_map", "name_tag", "lead", "saddle", "totem_of_undying", "arrow", "spectral_arrow",
    "tipped_arrow", "apple", "golden_apple", "enchanted_golden_apple", "bread", "cookie", "cake",
    "carrot", "golden_carrot", "potato", "baked_potato", "poisonous_potato", "beetroot",
    "beetroot_soup", "mushroom_stew", "rabbit_stew", "suspicious_stew", "melon_slice",
    "glistering_melon_slice", "sweet_berries", "glow_berries", "chorus_fruit", "dried_kelp",
    "honey_bottle", "beef", "cooked_beef", "porkchop", "cooked_porkchop", "chicken",
    "cooked_chicken", "mutton", "cooked_mutton", "rabbit", "cooked_rabbit", "cod", "cooked_cod",
    "salmon", "cooked_salmon", "tropical_fish", "pufferfish", "potion", "splash_potion",
    "lingering_potion", "glass_bottle", "experience_bottle", "enchanted_book", "book",
    "writable_book", "written_book", "knowledge_book", "paper", "stick", "bone", "bone_meal",
    "string", "feather", "gunpowder", "leather", "rabbit_hide", "rabbit_foot", "slime_ball",
    "magma_cream", "blaze_rod", "blaze_powder", "ender_pearl", "ender_eye", "ghast_tear",
    "nether_star", "phantom_membrane", "prismarine_shard", "prismarine_crystals", "nautilus_shell",
    "heart_of_the_sea", "scute", "shulker_shell", "echo_shard", "disc_fragment_5", "coal",
    "charcoal", "diamond", "emerald", "lapis_lazuli", "quartz", "amethyst_shard", "raw_iron",
    "raw_gold", "raw_copper", "iron_ingot", "gold_ingot", "copper_ingot", "netherite_ingot",
    "netherite_scrap", "iron_nugget", "gold_nugget", "redstone", "glowstone_dust", "clay_ball",
    "brick", "nether_brick", "flint", "wheat", "wheat_seeds", "pumpkin_seeds", "melon_seeds",
    "beetroot_seeds", "sugar", "sugar_cane", "egg", "milk_bucket", "bucket", "water_bucket",
    "lava_bucket", "powder_snow_bucket", "cod_bucket", "salmon_bucket", "axolotl_bucket",
    "tadpole_bucket", "pufferfish_bucket", "tropical_fish_bucket", "snowball", "fire_charge",
    "firework_rocket", "firework_star", "ink_sac", "glow_ink_sac", "cocoa_beans", "armor_stand",
    "item_frame", "glow_item_frame", "painting", "minecart", "chest_minecart", "furnace_minecart",
    "hopper_minecart", "tnt_minecart", "oak_boat", "spruce_boat", "birch_boat", "jungle_boat",
    "acacia_boat", "dark_oak_boat", "mangrove_boat", "bamboo_raft", "music_disc_13",
    "music_disc_cat", "music_disc_blocks", "music_disc_chirp", "music_disc_far", "music_disc_mall",
    "music_disc_mellohi", "music_disc_stal", "music_disc_strad", "music_disc_ward", "music_disc_11",
    "music_disc_wait", "music_disc_otherside", "music_disc_5", "music_disc_pigstep",
    "leather_horse_armor", "iron_horse_armor", "golden_horse_armor", "diamond_horse_armor",
    "goat_horn", "bundle", "torch", "soul_torch", "lantern", "soul_lantern", "campfire",
    "soul_campfire", "bell", "ender_chest", "chest", "shulker_box", "crafting_table", "furnace",
    "anvil", "enchanting_table", "beacon", "conduit", "dragon_egg", "dragon_head", "player_head",
    "zombie_head", "creeper_head", "skeleton_skull", "wither_skeleton_skull", "piglin_head",
    "jack_o_lantern", "carved_pumpkin", "pumpkin", "melon", "tnt", "dirt", "grass_block", "stone",
    "cobblestone", "oak_log", "oak_planks", "glass", "obsidian", "crying_obsidian",
    "respawn_anchor", "lodestone", "white_wool", "white_bed", "white_banner"]

def vanilla : Catalog :=
  ofItems vanillaItems

end Reskin.Catalog
